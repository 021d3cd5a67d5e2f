import Workflow.Eval.Meter
import Workflow.Eval.Convert

/-! The methods of numbers. -/
namespace Workflow.Eval

/-- A number with a number of decimal places; very large ones have none. -/
def toFixed (x : Float) (places : Value) : EvalM Value :=
  let digits := places.toInteger
  if digits < 0.0 ∨ 100.0 < digits then outOfRange .digits
  else if !x.isFinite ∨ 1e21 ≤ x.abs then pure (.string (Number.display x))
  else pure (.string (Number.fixed (Number.clampNat 100 digits) x))

/-- A number in a radix, ten if it is not given. -/
def toRadix (x : Float) (radix : Value) : EvalM Value :=
  match radix with
  | .undefined => pure (.string (Number.display x))
  | _ =>
    let r := radix.toInteger
    if r < 2.0 ∨ 36.0 < r then outOfRange .radix
    else pure (.string ((Number.inRadix? (Number.clampNat 36 r) x).getD (Number.display x)))

def numberMethod (x : Float) (method : NumberMethod) (args : List Value) : EvalM Value :=
  match method with
  | .toFixed => toFixed x (Value.arg args 0)
  | .toString => toRadix x (Value.arg args 0)
  | .toLocaleString => pure (.string (Number.localeText x))
  | .valueOf => pure (.number x)

end Workflow.Eval
