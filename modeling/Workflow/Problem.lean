import Workflow.Evaluate
import Workflow.Time.Zone

/-! Failures as the program reports them: each with a stable code and a text. -/
namespace Workflow

inductive Problem where
  | expression (text : String)
  | validation (issues : List Issue)
  | config (text : String)
  | parse (text : String)
  | internal (text : String)
  | json
  | toml
  | io (text : String)

namespace Problem

def code : Problem → String
  | .expression _ => "EXPRESSION_ERROR"
  | .validation _ => "VALIDATION_ERROR"
  | .config _ => "CONFIG_ERROR"
  | .parse _ => "PARSE_ERROR"
  | .internal _ => "INTERNAL_ERROR"
  | .json => "JSON_ERROR"
  | .toml => "TOML_ERROR"
  | .io _ => "IO_ERROR"

def text : Problem → String
  | .expression text => "Expression error: " ++ text
  | .validation issues => "Validation error: " ++ Issue.joined issues
  | .config text => "Configuration error: " ++ text
  | .parse text => "Parse error: " ++ text
  | .internal text => "Internal error: " ++ text
  | .json => "JSON error"
  | .toml => "TOML error"
  | .io text => "IO error: " ++ text

def ofFailure : Failure → Problem
  | .rejected issues => .validation issues
  | failure => .expression failure.text

def unknownZone (s : String) : Problem :=
  .parse (Time.Zone.unknownText s)

/-- The report of a failure. -/
def toJson (p : Problem) : Json :=
  .ofEntries
    [("success", .bool false),
      ("error", .ofEntries [("code", .string p.code), ("message", .string p.text)])]

end Problem

end Workflow
