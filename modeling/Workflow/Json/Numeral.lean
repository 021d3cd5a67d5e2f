import Workflow.Json.Basic
import Workflow.Number.Literal

/-! Reading the numbers of JSON text. Significant digits are gathered in a word of 64 bits and
scaled by a power of ten, so the last bit of a long decimal can differ from that of the nearest
double. -/
namespace Workflow.Json

open Number Text

/-- The leading digits that fit a word of 64 bits behind `word`, and the digits left over. -/
def gather (word : Nat) : List Char → Nat × List Char
  | [] => (word, [])
  | c :: rest =>
    let next := word * 10 + (c.toNat - '0'.toNat)
    if next < 0x1_0000_0000_0000_0000 then gather next rest else (word, c :: rest)

/-- `10 ^ n` for `n ≤ 308`. -/
def powerOfTen (n : Nat) : Float :=
  Float.ofScientific 1 false n

/-- `x / 10 ^ n`, at most `10 ^ 308` at a time. -/
def scaleDown (steps : Nat) (x : Float) (n : Nat) : Float :=
  match steps with
  | 0 => x
  | steps + 1 =>
    if n ≤ 308 then x / powerOfTen n
    else if x == 0.0 then x
    else scaleDown steps (x / powerOfTen 308) (n - 308)

/-- `word * 10 ^ exponent`; `none` when it is too large. -/
def scaled? (word : Nat) (exponent : Int) : Option Float :=
  let x := Float.ofNat word
  -- a word is below 10 ^ 20, so after two steps of 10 ^ 308 nothing is left of it
  if exponent < 0 then some (scaleDown 3 x (-exponent).toNat)
  else if 308 < exponent then (if word = 0 then some 0.0 else none)
  else
    let y := x * powerOfTen exponent.toNat
    if y.isInf then none else some y

/-- The digits before the point, which have no needless zero in front. -/
def wholeDigits? (s : List Char) : Option (List Char × List Char) :=
  match s.takeWhile isDigit with
  | [] => none
  | '0' :: _ :: _ => none
  | digits => some (digits, s.dropWhile isDigit)

/-- The digits behind a point, if there is a point; it needs a digit behind it. -/
def fractionDigits? (s : List Char) : Option (List Char × List Char) :=
  match s with
  | '.' :: body =>
    match body.takeWhile isDigit with
    | [] => none
    | digits => some (digits, body.dropWhile isDigit)
  | _ => some ([], s)

/-- The exponent, if there is one; it needs a digit. -/
def exponentPart? (s : List Char) : Option (Option Int × List Char) :=
  match s with
  | 'e' :: _ | 'E' :: _ =>
    match scanExponent s with
    | (some e, rest) => some (some e, rest)
    | (none, _) => none
  | _ => some (none, s)

/-- The number with the given digits. Whole numbers that fit a word stay exact; an exponent that
does not fit a word of 32 bits stands for zero or for a number that is too large. -/
def numeral? (negative : Bool) (whole fraction : List Char) (exponent : Option Int) :
    Option Numeral :=
  let (word, dropped) := gather 0 whole
  let signedDouble (x : Float) : Numeral := .double (if negative then -x else x)
  if dropped.isEmpty && fraction.isEmpty && exponent.isNone then
    if negative = false then some (.whole word)
    else if word = 0 ∨ 0x8000_0000_0000_0000 < word then some (signedDouble (Float.ofNat word))
    else some (.whole (-(word : Int)))
  else
    -- digits that found no room count only by their place: those before the point move it to the
    -- right, and those behind it have no effect
    let (word, unused) := gather word fraction
    let shift : Int := dropped.length - (fraction.length - unused.length)
    let e := exponent.getD 0
    if e.natAbs < 0x8000_0000 then (scaled? word (shift + e)).map signedDouble
    else if 0 < e ∧ word ≠ 0 then none
    else some (signedDouble 0.0)

/-- The number at the start of `s` behind its sign, and what follows it. -/
def readUnsigned? (negative : Bool) (s : List Char) : Option (Numeral × List Char) := do
  let (whole, rest) ← wholeDigits? s
  let (fraction, rest) ← fractionDigits? rest
  let (exponent, rest) ← exponentPart? rest
  let n ← numeral? negative whole fraction exponent
  return (n, rest)

/-- The number at the start of `s`, and what follows it. -/
def readNumeral? (s : List Char) : Option (Numeral × List Char) :=
  match s with
  | '-' :: rest => readUnsigned? true rest
  | _ => readUnsigned? false s

end Workflow.Json
