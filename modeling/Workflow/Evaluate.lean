import Workflow.Context
import Workflow.Eval.Run
import Workflow.Expr.Parser
import Workflow.Expr.Screen

/-! From the text of an expression to its value: the text is screened, the context is cut down to
plain data, the text is parsed, and the expression is run. The first failure ends it. -/
namespace Workflow

open Eval

/-- What an expression yields: plain data or a point in time. -/
inductive Outcome where
  | plain (value : Json)
  | moment (m : Time.Moment)

/-- A point in time is plain data as its text. -/
def Outcome.toJson : Outcome → Json
  | .plain value => value
  | .moment m => .string m.isoText

/-- Why an expression yields nothing. -/
inductive Failure where
  | rejected (issues : List Issue)
  | context
  | malformed (cause : Malformation) (offset : Nat)
  | fault (cause : Fault)
  | undefined

namespace Failure

def ofParse : ParseFault → Failure
  | .malformed cause offset => .malformed cause offset
  | .tooDeep limit => .fault (.exceeded (.parsing limit))

def text : Failure → String
  | .rejected issues => "expression rejected: " ++ Issue.joined issues
  | .context => "context serialization failed"
  | .malformed cause offset => "SyntaxError: " ++ cause.text ++ " at offset " ++ toString offset
  | .fault cause => cause.text
  | .undefined => "expression evaluated to undefined"

end Failure

/-- The roots of a context as values. `json` is another name of `$json`. -/
def rootValues (roots : Fields Json) : List (String × Value) :=
  let value (name : String) (json : Json) := Value.ofJson { origin := .root name } json
  let values := roots.map fun (name, json) => (name, value name json)
  match Fields.get? roots "$json" with
  | some json => ("json", value "$json" json) :: values
  | none => values

/-- The outcome of a value, if there is one. -/
def Outcome.ofValue? : Value → Option Outcome
  | .moment m => some (.moment m)
  | v => v.toJson?.map .plain

/-- What an expression yields in a setting. -/
def runIn (setting : Setting) (e : Expr) : Except Failure Outcome :=
  match (Eval.run e).run setting |>.run {} with
  | .ok v _ =>
    match Outcome.ofValue? v with
    | some outcome => .ok outcome
    | none => .error .undefined
  | .error fault _ => .error (.fault fault)

/-- What the text of an expression yields at a time and in a context, if as many milliseconds go by
as `elapsed` says and these are the named zones. -/
def evaluate (limits : Limits) (now : Time.Timestamp) (source : String) (ctx : Context)
    (elapsed : Nat → Nat := fun _ => 0) (zones : Time.ZoneDatabase := .known) :
    Except Failure Outcome :=
  match Screen.issues limits.maxExpressionLength source with
  | [] =>
    match ctx.isolate? with
    | none => .error .context
    | some roots =>
      match Expr.parse limits.maxDepth source with
      | .error fault => .error (.ofParse fault)
      | .ok e => runIn { limits, now, roots := rootValues roots, zones, elapsed } e
  | issues => .error (.rejected issues)

end Workflow
