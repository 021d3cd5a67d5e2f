import Workflow.Number.Double

/-! The shortest decimal that reads back as a given double. -/
namespace Workflow.Number

/-- The number `digits * 10 ^ exponent`, where `digits` has `count` digits and does not end in 0. -/
structure Decimal where
  digits : Nat
  count : Nat
  exponent : Int
  deriving Repr, DecidableEq

/-- The reals that round to a positive double, and the double itself, over a common denominator.
The ends belong to the interval iff `closed`. -/
structure Interval where
  low : Nat
  value : Nat
  high : Nat
  denominator : Nat
  closed : Bool

/-- The interval of `mantissa * 2 ^ exponent`. The gap below a power of two is half the gap above
it, except at the bottom of the range. -/
def Interval.of (mantissa : Nat) (exponent : Int) : Interval :=
  -- the unit is a quarter of the last place, so that all ends are whole
  let narrow := mantissa = fractionBound ∧ exponent ≠ -1074
  let scale := Nat.pow 2 exponent.toNat
  { low := (4 * mantissa - if narrow then 1 else 2) * scale
    value := 4 * mantissa * scale
    high := (4 * mantissa + 2) * scale
    denominator := 4 * Nat.pow 2 (-exponent).toNat
    closed := mantissa % 2 = 0 }

/-- Which of two neighbours stands for a number in the middle between them. -/
inductive Tie where
  | up
  | toEven
  deriving Repr, DecidableEq

/-- Whether a number in the middle goes to the neighbour above `below`. -/
def Tie.goesUp (tie : Tie) (below : Nat) : Bool :=
  match tie with
  | .up => true
  | .toEven => below % 2 = 1

/-- Whether `n * unit / den` lies in the interval. -/
def Interval.contains (i : Interval) (n unit den : Nat) : Bool :=
  let p := n * unit * i.denominator
  if i.closed then i.low * den ≤ p && p ≤ i.high * den
  else i.low * den < p && p < i.high * den

/-- The multiple of `unit / den` that lies in the interval and is nearest to its value. -/
def Interval.nearest? (tie : Tie) (i : Interval) (unit den : Nat) : Option Nat :=
  let below := i.value * den / (unit * i.denominator)
  let above := below + 1
  match i.contains below unit den, i.contains above unit den with
  | false, false => none
  | true, false => some below
  | false, true => some above
  | true, true =>
    let middle := (below + above) * unit * i.denominator
    let twice := 2 * i.value * den
    if middle < twice ∨ (middle = twice ∧ tie.goesUp below) then some above else some below

/-- The least `k ≤ limit` with `value < bound k`, counting up from `k`. -/
def magnitudeUp (value unit : Nat) (limit k : Nat) : Nat :=
  match limit with
  | 0 => k
  | limit + 1 => if value < Nat.pow 10 k * unit then k else magnitudeUp value unit limit (k + 1)

/-- The greatest `k ≤ limit` with `value * 10 ^ k < unit`, counting up from `k`. -/
def magnitudeDown (value unit : Nat) (limit k : Nat) : Nat :=
  match limit with
  | 0 => k
  | limit + 1 => if value * Nat.pow 10 (k + 1) < unit then magnitudeDown value unit limit (k + 1) else k

/-- The `k` with `10 ^ (k - 1) ≤ value / unit < 10 ^ k`. -/
def magnitude (value unit : Nat) : Int :=
  if unit ≤ value then magnitudeUp value unit 400 1
  else -(magnitudeDown value unit 400 0 : Int)

/-- Drops final zeros. -/
def Decimal.normalize (digits : Nat) (exponent : Int) (limit : Nat) : Nat × Int :=
  match limit with
  | 0 => (digits, exponent)
  | limit + 1 =>
    if digits ≠ 0 ∧ digits % 10 = 0 then normalize (digits / 10) (exponent + 1) limit
    else (digits, exponent)

def Decimal.make (digits : Nat) (exponent : Int) : Decimal :=
  let (digits, exponent) := Decimal.normalize digits exponent 20
  { digits, exponent, count := (Nat.toDigits 10 digits).length }

/-- Tries grids of `count`, `count + 1`, … digits for a number below `10 ^ top`. -/
def shortestLoop (tie : Tie) (i : Interval) (top : Int) (count : Nat) : Nat → Decimal
  | 0 => Decimal.make 0 0
  | more + 1 =>
    let e := top - count
    match i.nearest? tie (Nat.pow 10 e.toNat) (Nat.pow 10 (-e).toNat) with
    | some n => Decimal.make n e
    | none => shortestLoop tie i top (count + 1) more

/-- The shortest decimal that reads back as the positive double `mantissa * 2 ^ exponent`, and the
nearest to it of those; of two that are equally near, the one that `tie` says. -/
def shortest (tie : Tie) (mantissa : Nat) (exponent : Int) : Decimal :=
  let i := Interval.of mantissa exponent
  shortestLoop tie i (magnitude i.value i.denominator) 1 20

end Workflow.Number
