import Workflow.Number.Double
import Workflow.Text.Blank
import Workflow.Text.Digits

/-! Reading numbers: decimals, the numbers that whole texts stand for, and the numbers that texts
start with. -/
namespace Workflow.Number

open Text

/-- `digits * 10 ^ exponent` as the nearest double. Exponents out of all proportion are cut off
first; they leave the result as it is. -/
def ofDecimal (digits : Nat) (exponent : Int) : Float :=
  let top := exponent + (Nat.toDigits 10 digits).length
  if digits = 0 ∨ top < -400 then 0.0
  else if 400 < top then infinity
  else if exponent < 0 then Float.ofScientific digits true (-exponent).toNat
  else Float.ofScientific digits false exponent.toNat

/-- The parts of a decimal: the digits before and behind the point, the exponent, what follows. -/
structure Scanned where
  whole : List Char
  fraction : List Char
  exponent : Option Int
  rest : List Char

def isDigit (c : Char) : Bool :=
  '0' ≤ c && c ≤ '9'

/-- The exponent at the start of `s`, if a digit follows its letter and sign. -/
def scanExponent (s : List Char) : Option Int × List Char :=
  match s with
  | c :: rest =>
    if c = 'e' ∨ c = 'E' then
      let (negative, body) := match rest with
        | '+' :: r => (false, r)
        | '-' :: r => (true, r)
        | _ => (false, rest)
      match digits? 10 (body.takeWhile isDigit) with
      | some n => (some (signed negative n), body.dropWhile isDigit)
      | none => (none, s)
    else (none, s)
  | [] => (none, s)

theorem length_scanExponent_le (s : List Char) : (scanExponent s).2.length ≤ s.length := by
  have := length_dropWhile_le isDigit
  unfold scanExponent
  repeat' split
  all_goals grind

/-- The longest start of `s` that is laid out like a decimal without a sign. -/
def scan (s : List Char) : Scanned :=
  let whole := s.takeWhile isDigit
  let tail := s.dropWhile isDigit
  let (fraction, tail) := match tail with
    | '.' :: r =>
      if whole.isEmpty && (r.takeWhile isDigit).isEmpty then ([], tail)
      else (r.takeWhile isDigit, r.dropWhile isDigit)
    | _ => ([], tail)
  let (exponent, rest) :=
    if whole.isEmpty && fraction.isEmpty then (none, tail) else scanExponent tail
  { whole, fraction, exponent, rest }

/-- The value of a decimal with at least one digit. -/
def Scanned.value? (d : Scanned) : Option Float :=
  (digits? 10 (d.whole ++ d.fraction)).map fun n =>
    ofDecimal n (d.exponent.getD 0 - d.fraction.length)

/-- The number that a whole text without a sign stands for. -/
def unsignedDecimal? (s : List Char) : Option Float :=
  let d := scan s
  if d.rest.isEmpty then d.value? else none

/-- Applies an optional sign. -/
def withSign (read : List Char → Option Float) (s : List Char) : Option Float :=
  match s with
  | '+' :: rest => read rest
  | '-' :: rest => (read rest).map (-·)
  | _ => read s

/-- The double of a whole number. -/
def ofInt (n : Int) : Float :=
  if n < 0 then -Float.ofNat n.natAbs else Float.ofNat n.natAbs

/-- The number that a text as a whole stands for: blank text is zero, other text without a number is
no number. -/
def ofText (s : List Char) : Float :=
  let t := trim s
  if t.isEmpty then 0.0
  else if t = "Infinity".toList ∨ t = "+Infinity".toList then infinity
  else if t = "-Infinity".toList then -infinity
  else
    match t with
    | '0' :: 'x' :: hex | '0' :: 'X' :: hex => ((signed? 16 0x8000_0000_0000_0000 hex).map ofInt).getD nan
    | _ => (withSign unsignedDecimal? t).getD nan

/-- The number that a text starts with. -/
def leading (s : List Char) : Float :=
  let t := trimStart s
  if "Infinity".toList.isPrefixOf t || "+Infinity".toList.isPrefixOf t then infinity
  else if "-Infinity".toList.isPrefixOf t then -infinity
  else (withSign (fun r => (scan r).value?) t).getD nan

/-- The value of the digits that `s` starts with, in floating point; `none` if there is no digit. -/
def leadingDigits? (radix : Nat) (s : List Char) : Option Float :=
  let digits := s.takeWhile fun c => (digit? radix c).isSome
  if digits.isEmpty then none
  else some (digits.foldl (fun x c =>
    x * Float.ofNat radix + Float.ofNat ((digit? radix c).getD 0)) 0.0)

/-- Drops a mark of hexadecimal digits. -/
def dropHexMark (s : List Char) : Option (List Char) :=
  match s with
  | '0' :: 'x' :: rest | '0' :: 'X' :: rest => some rest
  | _ => none

/-- The whole number that a text starts with, in a radix that is 10 unless given. -/
def leadingInt (s : List Char) (radix : Option Float) : Float :=
  let t := trimStart s
  let read (radix : Nat) (hexAllowed : Bool) : Float :=
    let run (s : List Char) : Option Float :=
      match if hexAllowed then dropHexMark s else none with
      | some hex => leadingDigits? 16 hex
      | none => leadingDigits? radix s
    (withSign run t).getD nan
  match radix with
  | none => read 10 true
  | some r =>
    match toInt? r with
    | none => if r.isNaN then read 10 true else nan
    | some 0 => read 10 true
    | some n => if 2 ≤ n ∧ n ≤ 36 then read n.toNat (n = 16) else nan

/-- A number in a radix from 2 to 36. Only safe whole numbers are written in radices other than
ten. -/
def inRadix? (radix : Nat) (x : Float) : Option String :=
  match parts x with
  | .finite negative m e =>
    match wholePart m e with
    | (n, false) =>
      if radix = 10 ∨ maxSafe < n then none
      else
        let body := String.ofList (Text.ofNat radix n)
        some (if negative ∧ n ≠ 0 then "-" ++ body else body)
    | _ => none
  | _ => none

end Workflow.Number
