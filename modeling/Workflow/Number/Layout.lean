import Workflow.Number.Shortest

/-! How numbers are written: plain decimals, JSON text, text in expressions, and their
exact form. -/
namespace Workflow.Number

def zeros (n : Nat) : String :=
  String.ofList (List.replicate n '0')

/-- A decimal without an exponent; a whole number gets `suffix`. -/
def plain (d : Decimal) (suffix : String) : String :=
  let digits := toString d.digits
  if 0 ≤ d.exponent then digits ++ zeros d.exponent.toNat ++ suffix
  else
    let places := (-d.exponent).toNat
    if places < d.count then
      String.ofList (digits.toList.take (d.count - places)) ++ "." ++
        String.ofList (digits.toList.drop (d.count - places))
    else "0." ++ zeros (places - d.count) ++ digits

/-- A decimal as one digit, a point and the others, and the power of ten. -/
def scientific (d : Decimal) (plus : String) : String :=
  let e := d.exponent + d.count - 1
  let digits := (toString d.digits).toList
  let tail := digits.drop 1
  String.ofList (digits.take 1) ++ (if tail.isEmpty then "" else "." ++ String.ofList tail) ++
    "e" ++ (if e < 0 then "-" else plus) ++ toString e.natAbs

/-- Which powers of ten are written without an exponent, how the others are, and where ties go. -/
structure Layout where
  lowest : Int
  highest : Int
  plus : String
  tie : Tie

def Layout.text (layout : Layout) (x : Float) : String :=
  match parts x with
  | .nan => "NaN"
  | .infinite negative => if negative then "-inf" else "inf"
  | .finite negative m e =>
    let body :=
      if m = 0 then "0.0"
      else
        let d := shortest layout.tie m e
        let power := d.exponent + d.count - 1
        if layout.lowest ≤ power ∧ power ≤ layout.highest then plain d ".0"
        else scientific d layout.plus
    if negative then "-" ++ body else body

/-- JSON numbers have an exponent below `10 ^ -5` and from `10 ^ 16` on, with its sign. Ties go to
the even neighbour. -/
def jsonLayout : Layout :=
  ⟨-5, 15, "+", .toEven⟩

/-- Literals of a tree have an exponent below `10 ^ -4` and from `10 ^ 16` on, a positive one
without its sign. Ties go up. -/
def literalLayout : Layout :=
  ⟨-4, 15, "", .up⟩

/-- Numbers in the text of an expression never have an exponent; whole numbers below `10 ^ 21` are
written exactly, and ties of the others go up. -/
def display (x : Float) : String :=
  match parts x with
  | .nan => "NaN"
  | .infinite negative => if negative then "-Infinity" else "Infinity"
  | .finite negative m e =>
    let body :=
      if m = 0 then "0"
      else
        match wholePart m e with
        | (n, false) => if n < 1_000_000_000_000_000_000_000 then toString n else plain (shortest .up m e) ""
        | _ => plain (shortest .up m e) ""
    if negative ∧ m ≠ 0 then "-" ++ body else body

/-- `num / den` to the nearest whole number, ties to the even one. -/
def divideToEven (num den : Nat) : Nat :=
  let q := num / den
  let r := num % den
  if 2 * r < den ∨ (2 * r = den ∧ q % 2 = 0) then q else q + 1

/-- The size of a finite double with exactly `places` digits behind the point. -/
def fixedBody (places mantissa : Nat) (exponent : Int) : String :=
  let n := divideToEven
    (mantissa * Nat.pow 2 exponent.toNat * Nat.pow 10 places) (Nat.pow 2 (-exponent).toNat)
  if places = 0 then toString n
  else
    let digits := (toString n).toList
    let padded := List.replicate (places + 1 - digits.length) '0' ++ digits
    String.ofList (padded.take (padded.length - places)) ++ "." ++
      String.ofList (padded.drop (padded.length - places))

/-- A finite number with exactly `places` digits behind the point; zero has no sign. -/
def fixed (places : Nat) (x : Float) : String :=
  match parts x with
  | .finite negative m e =>
    if negative ∧ m ≠ 0 then "-" ++ fixedBody places m e else fixedBody places m e
  | _ => display x

/-- Puts a comma between groups of three digits, counted from the right. -/
def grouped (digits : List Char) : List Char :=
  match digits with
  | [] => []
  | c :: rest =>
    if rest.length % 3 = 0 ∧ rest ≠ [] then c :: ',' :: grouped rest else c :: grouped rest

/-- A number with grouped digits and at most three decimal places. -/
def localeText (x : Float) : String :=
  match parts x with
  | .finite negative m e =>
    let rounded := (fixedBody 3 m e).toList
    let whole := rounded.take (rounded.length - 4)
    let fraction := ((rounded.drop (rounded.length - 3)).reverse.dropWhile (· = '0')).reverse
    let sign := if negative ∧ (whole ≠ ['0'] ∨ fraction ≠ []) then ['-'] else []
    String.ofList (sign ++ grouped whole ++ if fraction.isEmpty then [] else '.' :: fraction)
  | _ => display x

end Workflow.Number
