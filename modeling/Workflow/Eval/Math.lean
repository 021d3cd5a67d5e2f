import Workflow.Eval.Convert

/-! Functions of numbers. -/
namespace Workflow.Eval

/-- The nearest whole number, halves up. -/
def roundHalfUp (x : Float) : Float :=
  let low := Number.floor x
  if 0.5 ≤ x - low then low + 1.0 else low

def signOf (x : Float) : Float :=
  if x == 0.0 ∨ x.isNaN then x
  else if x < 0.0 then -1.0
  else 1.0

/-- The larger of two numbers, the second one of equals. -/
def larger (x y : Float) : Float :=
  if y < x then x else y

/-- The smaller of two numbers, the second one of equals. -/
def smaller (x y : Float) : Float :=
  if x < y then x else y

/-- The number that `pick` leaves of `start` and the others; none if one of them is none. -/
def extreme (pick : Float → Float → Float) (start : Float) (xs : List Float) : Float :=
  if xs.any Float.isNaN then Number.nan else xs.foldl pick start

def MathOp.apply (op : MathOp) (xs : List Float) : Float :=
  let x := xs.getD 0 Number.nan
  let y := xs.getD 1 Number.nan
  match op with
  | .abs => x.abs
  | .ceil => Number.ceiling x
  | .floor => Number.floor x
  | .round => roundHalfUp x
  | .trunc => Number.truncate x
  | .sign => signOf x
  | .sqrt => x.sqrt
  | .cbrt => x.cbrt
  | .exp => x.exp
  | .log => x.log
  | .log2 => x.log2
  | .log10 => x.log10
  | .sin => x.sin
  | .cos => x.cos
  | .tan => x.tan
  | .asin => x.asin
  | .acos => x.acos
  | .atan => x.atan
  | .atan2 => Float.atan2 x y
  | .pow => Float.pow x y
  | .hypot => (xs.foldl (fun sum x => sum + x * x) (-0.0)).sqrt
  | .max => extreme larger (-Number.infinity) xs
  | .min => extreme smaller Number.infinity xs

end Workflow.Eval
