import Workflow.Json.Basic

/-! Problems found in what a user wrote. -/
namespace Workflow

inductive IssueCode where
  | invalidFieldCount
  | invalidValue
  | outOfRange
  | invalidRange
  | invalidStep
  | expressionTooLong
  | forbiddenPattern
  deriving Repr, DecidableEq

def IssueCode.text : IssueCode → String
  | .invalidFieldCount => "INVALID_FIELD_COUNT"
  | .invalidValue => "INVALID_VALUE"
  | .outOfRange => "OUT_OF_RANGE"
  | .invalidRange => "INVALID_RANGE"
  | .invalidStep => "INVALID_STEP"
  | .expressionTooLong => "EXPRESSION_TOO_LONG"
  | .forbiddenPattern => "FORBIDDEN_PATTERN"

/-- A problem, the field that has it, and a stable code for its kind. -/
structure Issue where
  field : String
  message : String
  code : IssueCode
  deriving Repr, DecidableEq

namespace Issue

def text (i : Issue) : String :=
  i.field ++ " (" ++ i.code.text ++ "): " ++ i.message

def toJson (i : Issue) : Json :=
  .ofEntries
    [("field", .string i.field), ("message", .string i.message), ("code", .string i.code.text)]

/-- Issues on one line. -/
def joined (issues : List Issue) : String :=
  "; ".intercalate (issues.map text)

end Issue

end Workflow
