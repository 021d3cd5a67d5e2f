import Workflow.Cli.Help

/-! Reading command lines. -/
namespace Workflow.Cli

/-- Why a command line asks for no command. -/
inductive Stop where
  | usage
  | help (text : String)
  | version
  deriving Repr, DecidableEq

/-- What one word of a command line is. -/
inductive Word where
  | escape
  | long (name : String) (value : Option String)
  | short (letter : Char) (value : Option String)
  | plain
  deriving Repr, DecidableEq

/-- Options start with a minus. Their values can stand behind an equals sign, or right behind a
letter. -/
def Word.of (s : String) : Word :=
  match s.toList with
  | ['-', '-'] => .escape
  | '-' :: '-' :: body =>
    match body.span (· ≠ '=') with
    | (name, _ :: value) => .long (String.ofList name) (some (String.ofList value))
    | (name, []) => .long (String.ofList name) none
  | ['-', c] => .short c none
  | '-' :: c :: '=' :: value => .short c (some (String.ofList value))
  | '-' :: c :: value => .short c (some (String.ofList value))
  | _ => .plain

/-- A command line as far as it was read: the command, the options given at this command and at all,
the last ones first, and whether all that follows are arguments. -/
structure Reading where
  node : Node
  names : List String := []
  here : List String := []
  values : List (String × String) := []
  flags : List String := []
  argument : Option String := none
  escaped : Bool := false

/-- The outcome of a word: the reading goes on, or waits for the value of an option, or the help of
the commands named by the words that follow is asked for. -/
inductive Step where
  | on (r : Reading)
  | awaiting (r : Reading) (o : Opt)
  | help

namespace Reading

def helpText (r : Reading) : String :=
  help r.node r.names

def options (r : Reading) : List Opt :=
  r.node.options ++ globalOptions ++ helpOption ::
    if r.names.isEmpty then [versionOption] else []

/-- An option is given once at each command. -/
def claim (r : Reading) (o : Opt) : Except Stop Reading :=
  if r.here.contains o.long then .error .usage else .ok { r with here := o.long :: r.here }

def giveValue (r : Reading) (o : Opt) (kind : ValueKind) (v : String) : Except Stop Reading := do
  let r ← r.claim o
  if kind.admits v then return { r with values := (o.long, v) :: r.values } else throw .usage

def giveFlag (r : Reading) (o : Opt) : Except Stop Reading := do
  if o = helpOption then throw (.help r.helpText)
  if o = versionOption then throw .version
  let r ← r.claim o
  return { r with flags := o.long :: r.flags }

def giveOption (r : Reading) (o : Option Opt) (value : Option String) : Except Stop Step :=
  match o with
  | none => .error .usage
  | some o =>
    match o.value, value with
    | none, none => (r.giveFlag o).map .on
    | none, some _ => .error .usage
    | some kind, some v => (r.giveValue o kind v).map .on
    | some _, none => .ok (.awaiting r o)

/-- A flag behind a letter takes no value: what follows would be letters of other options, but flags
with a letter end the reading. -/
def giveLetter (r : Reading) (letter : Char) (value : Option String) : Except Stop Step :=
  match r.options.find? (·.short = some letter) with
  | some o => r.giveOption (some o) (if o.value.isSome then value else none)
  | none => .error .usage

/-- A word that is no option names a command of a group, or is the argument of a command. -/
def givePlain (r : Reading) (s : String) : Except Stop Step :=
  match r.node with
  | .leaf _ _ argument _ =>
    if r.argument.isSome then .error .usage
    else if argument.choices.isEmpty || argument.choices.contains s then
      .ok (.on { r with argument := some s })
    else .error .usage
  | .group .. =>
    if r.escaped then .error .usage
    else
      match r.node.child? s with
      | some node => .ok (.on { r with node, names := r.names ++ [s], here := [] })
      | none => if s = "help" then .ok .help else .error .usage

def step (r : Reading) (s : String) : Except Stop Step :=
  if r.escaped then r.givePlain s
  else
    match Word.of s with
    | .escape => .ok (.on { r with escaped := true })
    | .long name value => r.giveOption (r.options.find? (·.long = name)) value
    | .short letter value => r.giveLetter letter value
    | .plain => r.givePlain s

/-- The end of a command line: a command has its argument and all options that it needs. -/
def finish (r : Reading) : Except Stop Reading :=
  let missing := r.node.options.any fun o => o.isRequired && !r.here.contains o.long
  if r.argument.isNone || missing then .error .usage else .ok r

/-- The help of the command that is reached by names. -/
def helpOf (n : Node) (names : List String) : List String → Stop
  | [] => .help (help n names)
  | name :: rest =>
    match n.child? name with
    | some child => helpOf child (names ++ [name]) rest
    | none => .usage

def read (r : Reading) : List String → Except Stop Reading
  | [] => r.finish
  | s :: rest =>
    match r.step s with
    | .error stop => .error stop
    | .ok .help => .error (helpOf r.node r.names rest)
    | .ok (.on r) => r.read rest
    | .ok (.awaiting r o) =>
      match o.value, rest with
      | some kind, v :: later =>
        if Word.of v = .plain then
          match r.giveValue o kind v with
          | .error stop => .error stop
          | .ok r => r.read later
        else .error .usage
      | _, _ => .error .usage

def value? (r : Reading) (name : String) : Option String :=
  r.values.lookup name

def size? (r : Reading) (name : String) : Option Nat := do
  Text.unsigned? 10 Json.sizeBound (← r.value? name).toList

end Reading

/-- Where a text comes from. -/
inductive Source where
  | inline (text : String)
  | file (path : String)
  | input
  deriving Repr, DecidableEq

def Source.of (s : String) : Source :=
  match s.toList with
  | ['-'] => .input
  | '@' :: path => .file (String.ofList path)
  | _ => .inline s

inductive Command where
  | resolve (template : String) (item context : Option Source) (timeoutMs : Option Nat)
  | eval (expression : String) (item context : Option Source)
  | validate (cron : String)
  | describe (cron : String)
  | next (cron : String) (count : Option Nat) (start zone : Option String)
  | firesAt (cron instant : String) (zone : Option String)
  | convert (settings : Source)
  | completions
  deriving Repr, DecidableEq

/-- A command, the file that configures it, and whether failures are reported as JSON. -/
structure Invocation where
  command : Command
  config : Option String := none
  json : Bool := false
  deriving Repr, DecidableEq

/-- The command that was read. -/
def Command.ofReading? (r : Reading) : Option Command := do
  let argument ← r.argument
  let source (name : String) := (r.value? name).map Source.of
  match r.names with
  | ["resolve"] =>
    return .resolve argument (source "item") (source "context") (r.size? "timeout-ms")
  | ["eval"] => return .eval argument (source "item") (source "context")
  | ["cron", "validate"] => return .validate argument
  | ["cron", "describe"] => return .describe argument
  | ["cron", "next"] => return .next argument (r.size? "count") (r.value? "from") (r.value? "tz")
  | ["cron", "matches"] => return .firesAt argument (← r.value? "at") (r.value? "tz")
  | ["schedule", "convert"] => return .convert (.of argument)
  | ["completions"] => return .completions
  | _ => none

/-- What a command line asks for. -/
def Invocation.parse (words : List String) : Except Stop Invocation := do
  let r ← Reading.read { node := program } words
  match Command.ofReading? r with
  | some command =>
    return { command, config := r.value? "config", json := r.flags.contains "json" }
  | none => throw .usage

end Workflow.Cli
