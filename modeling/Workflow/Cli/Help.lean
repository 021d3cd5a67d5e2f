import Workflow.Cli.Grammar

/-! The help texts of the commands. -/
namespace Workflow.Cli

/-- The name of an option's value. -/
def Opt.valueName (o : Opt) : String :=
  String.ofList (o.long.toList.map fun c => if c = '-' then '_' else c.toUpper)

/-- An option with its value, as it is given. -/
def Opt.usage (o : Opt) : String :=
  "--" ++ o.long ++ if o.value.isSome then " <" ++ o.valueName ++ ">" else ""

/-- Options stand in the order in which their commands have them, those of one place by their
letters, a long name behind the letters it starts with. -/
def Opt.sortKey (o : Opt) : String :=
  match o.short with
  | some c => String.ofList [c.toLower, if c.isLower then '0' else '1']
  | none => o.long

def helpOption : Opt :=
  { long := "help", short := some 'h', about := "Print help" }

def versionOption : Opt :=
  { long := "version", short := some 'V', about := "Print version" }

/-- All options of a command in the order of its help. -/
def listedOptions (n : Node) (isProgram : Bool) : List Opt :=
  let placed := n.options.zipIdx ++ globalOptions.zipIdx
  let before (a b : Opt × Nat) : Bool :=
    a.2 < b.2 || (a.2 = b.2 && a.1.sortKey ≤ b.1.sortKey)
  (placed.mergeSort before).map (·.1) ++
    (helpOption :: if isProgram then [versionOption] else [])

def spaces (n : Nat) : String :=
  String.ofList (List.replicate n ' ')

/-- Rows of names and what they are, the second in one column. -/
def rows (items : List (String × String)) : String :=
  let width := (items.map (·.1.length)).foldl max 0
  String.join (items.map fun (name, about) =>
    "  " ++ name ++ spaces (width + 2 - name.length) ++ about ++ "\n")

def Opt.row (o : Opt) : String × String :=
  let letter := match o.short with
    | some c => "-" ++ c.toString ++ ", "
    | none => "    "
  (letter ++ o.usage, o.about)

def Argument.row (a : Argument) : String × String :=
  let choices := if a.choices.isEmpty then ""
    else " [possible values: " ++ ", ".intercalate a.choices ++ "]"
  ("<" ++ a.name ++ ">", a.about ++ choices)

/-- The help of a command that is reached by the given names. -/
def help (n : Node) (names : List String) : String :=
  let required := String.join ((n.options.filter (·.isRequired)).map fun o => o.usage ++ " ")
  let start := n.about ++ "\n\nUsage: " ++ " ".intercalate (program.name :: names) ++ " [OPTIONS] "
  let options := "Options:\n" ++ rows ((listedOptions n names.isEmpty).map Opt.row)
  match n with
  | .leaf _ _ argument _ =>
    start ++ required ++ "<" ++ argument.name ++ ">\n\nArguments:\n" ++ rows [argument.row] ++
      "\n" ++ options
  | .group _ _ children =>
    let listed := children.map (fun c => (c.name, c.about)) ++
      [("help", "Print this message or the help of the given subcommand(s)")]
    start ++ "<COMMAND>\n\nCommands:\n" ++ rows listed ++ "\n" ++ options

end Workflow.Cli
