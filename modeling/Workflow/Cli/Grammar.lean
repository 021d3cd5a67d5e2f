import Workflow.Json.Decode
import Workflow.Text.Digits

/-! The commands of the program, and what can be given to each. -/
namespace Workflow.Cli

/-- What the value of an option is. -/
inductive ValueKind where
  | text
  | path
  | size
  deriving Repr, DecidableEq

def ValueKind.admits : ValueKind → String → Bool
  | .text, _ => true
  | .path, s => !s.isEmpty
  | .size, s => (Text.unsigned? 10 Json.sizeBound s.toList).isSome

/-- An option with a value, or a flag if it takes none. -/
structure Opt where
  long : String
  about : String
  short : Option Char := none
  value : Option ValueKind := none
  isRequired : Bool := false
  deriving Repr, DecidableEq

/-- The text that a command works on. If there are choices it is one of them. -/
structure Argument where
  name : String
  about : String := ""
  choices : List String := []
  deriving Repr, DecidableEq

/-- A command, or a group of commands. -/
inductive Node where
  | leaf (name about : String) (argument : Argument) (options : List Opt)
  | group (name about : String) (children : List Node)
  deriving Inhabited

namespace Node

def name : Node → String
  | .leaf name .. => name
  | .group name .. => name

def about : Node → String
  | .leaf _ about .. => about
  | .group _ about _ => about

def options : Node → List Opt
  | .leaf _ _ _ options => options
  | .group .. => []

def children : Node → List Node
  | .leaf .. => []
  | .group _ _ children => children

def child? (n : Node) (name : String) : Option Node :=
  n.children.find? (·.name = name)

end Node

/-- The options of every command. -/
def globalOptions : List Opt :=
  [{ long := "config", about := "Config file (defaults to ~/.config/flowexpr/config.toml)"
     value := some .path },
    { long := "json", about := "Print failures as a JSON error envelope" }]

def itemOption : Opt :=
  { long := "item", short := some 'i', value := some .text
    about := "Current item as JSON (inline, @file or - for stdin)" }

def contextOption : Opt :=
  { long := "context", short := some 'c', value := some .text
    about := "Full context as JSON with $json/$node/$vars/$workflow/$execution keys" }

def timeoutOption : Opt :=
  { long := "timeout-ms", value := some .size
    about := "Override the evaluator timeout (milliseconds)" }

def countOption : Opt :=
  { long := "count", short := some 'n', value := some .size
    about := "Number of executions (defaults to schedule.default_count)" }

def fromOption : Opt :=
  { long := "from", value := some .text, about := "RFC3339 start instant (defaults to now)" }

def atOption : Opt :=
  { long := "at", value := some .text, about := "RFC3339 instant", isRequired := true }

def zoneOption : Opt :=
  { long := "tz", value := some .text
    about := "Zone to read the cron fields in (IANA name or offset)" }

def cronArgument : Argument :=
  { name := "EXPRESSION" }

def cronGroup : Node :=
  .group "cron" "Inspect cron expressions"
    [.leaf "validate" "Validate an expression and list every field error" cronArgument [],
      .leaf "describe" "Describe an expression in English" cronArgument [],
      .leaf "next" "List upcoming execution times" cronArgument
        [countOption, fromOption, zoneOption],
      .leaf "matches" "Check whether an instant matches an expression" cronArgument
        [atOption, zoneOption]]

def scheduleGroup : Node :=
  .group "schedule" "Work with trigger schedule settings"
    [.leaf "convert" "Recompute cronExpression for persisted settings"
      { name := "SETTINGS", about := "Settings JSON (inline, @file or - for stdin)" } []]

/-- The whole program. -/
def program : Node :=
  .group "flowexpr" "Expression and schedule engine for workflow automation"
    [.leaf "resolve" "Resolve \x7b\x7b...\x7d\x7d placeholders in a string"
      { name := "TEMPLATE", about := "Template text" }
      [itemOption, contextOption, timeoutOption],
      .leaf "eval" "Evaluate one expression strictly, reporting why it failed"
        { name := "EXPRESSION"
          about := "Expression text without the surrounding \x7b\x7b \x7d\x7d" }
        [itemOption, contextOption],
      cronGroup, scheduleGroup,
      .leaf "completions" "Generate shell completions"
        { name := "SHELL", about := "Shell to generate completions for"
          choices := ["bash", "zsh", "fish", "power-shell", "elvish"] } []]

def versionText : String :=
  "flowexpr 0.1.0\n"

end Workflow.Cli
