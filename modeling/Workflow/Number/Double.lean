/-! Doubles taken apart into sign, whole number and power of two, and the exact operations
on them. -/
namespace Workflow.Number

/-- What a double stands for: nothing, an infinity, or `± mantissa * 2 ^ exponent`. -/
inductive Parts where
  | nan
  | infinite (negative : Bool)
  | finite (negative : Bool) (mantissa : Nat) (exponent : Int)

/-- The bound of the fractions of doubles, and the first mantissa of those that leave it out. -/
def fractionBound : Nat :=
  0x10_0000_0000_0000

def parts (x : Float) : Parts :=
  let bits := x.toBits.toNat
  let negative : Bool := bits / 0x8000_0000_0000_0000 = 1
  let field : Nat := bits / fractionBound % 2048
  let fraction := bits % fractionBound
  if field = 2047 then
    if fraction = 0 then .infinite negative else .nan
  else if field = 0 then .finite negative fraction (-1074)
  else .finite negative (fractionBound + fraction) ((field : Int) - 1075)

/-- The whole part of `mantissa * 2 ^ exponent`, and whether anything is left over. -/
def wholePart (mantissa : Nat) (exponent : Int) : Nat × Bool :=
  if 0 ≤ exponent then (mantissa * Nat.pow 2 exponent.toNat, false)
  else
    let unit := Nat.pow 2 (-exponent).toNat
    (mantissa / unit, mantissa % unit ≠ 0)

def signed (negative : Bool) (n : Nat) : Int :=
  if negative then -(n : Int) else n

/-- The number without its fraction; `none` for what is not finite. -/
def toInt? (x : Float) : Option Int :=
  match parts x with
  | .finite negative m e => some (signed negative (wholePart m e).1)
  | _ => none

/-- Whether the number is finite and has no fraction. -/
def isWhole (x : Float) : Bool :=
  match parts x with
  | .finite _ m e => !(wholePart m e).2
  | _ => false

/-- `round negative n exact` replaces `± n` or the fraction beyond it; the sign of zero is kept. -/
def roundWith (round : Bool → Nat → Nat) (x : Float) : Float :=
  match parts x with
  | .finite negative m e =>
    match wholePart m e with
    | (_, false) => x
    | (n, true) =>
      let whole := Float.ofNat (round negative n)
      if negative then -whole else whole
  | _ => x

/-- Rounds toward zero. -/
def truncate (x : Float) : Float :=
  roundWith (fun _ n => n) x

/-- Rounds down. -/
def floor (x : Float) : Float :=
  roundWith (fun negative n => if negative then n + 1 else n) x

/-- Rounds up. -/
def ceiling (x : Float) : Float :=
  roundWith (fun negative n => if negative then n else n + 1) x

/-- The nearest whole number, halves away from zero; `none` for what is not finite. -/
def nearest? (x : Float) : Option Int :=
  match parts x with
  | .finite negative m e =>
    if 0 ≤ e then some (signed negative (m * Nat.pow 2 e.toNat))
    else
      let unit := Nat.pow 2 (-e).toNat
      some (signed negative ((2 * m + unit) / (2 * unit)))
  | _ => none

/-- `2 ^ e` for the exponents that a double can have. -/
def powerOfTwo (e : Int) : Float :=
  if e < -1022 then Float.ofBits (UInt64.ofNat (Nat.pow 2 (e + 1074).toNat))
  else Float.ofBits (UInt64.ofNat ((e + 1023).toNat * fractionBound))

/-- The remainder of a division that rounds toward zero; it has the sign of the dividend. -/
def remainder (x y : Float) : Float :=
  match parts x, parts y with
  | .finite negative m e, .finite _ n f =>
    if n = 0 then 0.0 / 0.0
    else
      let low := min e f
      let r := (m * Nat.pow 2 (e - low).toNat) % (n * Nat.pow 2 (f - low).toNat)
      let rest := Float.ofNat r * powerOfTwo low
      if negative then -rest else rest
  | .finite .., .infinite _ => x
  | _, _ => 0.0 / 0.0

/-- The whole part as a number from 0 to `bound`, values outside moved to the nearer end. -/
def clampNat (bound : Nat) (x : Float) : Nat :=
  match parts x with
  | .nan | .infinite true => 0
  | .infinite false => bound
  | .finite true .. => 0
  | .finite false m e => min (wholePart m e).1 bound

/-- The whole part as a signed word of 64 bits, values outside moved to the nearer end. -/
def clampInt64 (x : Float) : Int :=
  match parts x with
  | .nan => 0
  | .infinite negative => if negative then -0x8000_0000_0000_0000 else 0x7fff_ffff_ffff_ffff
  | .finite negative m e =>
    max (-0x8000_0000_0000_0000) (min (signed negative (wholePart m e).1) 0x7fff_ffff_ffff_ffff)

/-- The largest whole number up to which every whole number is a double. -/
def maxSafe : Nat :=
  0x1f_ffff_ffff_ffff

/-- The largest size that a collection or a text can have. -/
def maxSize : Nat :=
  0xffff_ffff_ffff_ffff

def nan : Float :=
  0.0 / 0.0

def infinity : Float :=
  1.0 / 0.0

end Workflow.Number
