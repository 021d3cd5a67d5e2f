/-! Whole numbers written in a radix. -/
namespace Workflow.Text

/-- The value of a digit in a radix up to 36, letters in either case. -/
def digit? (radix : Nat) (c : Char) : Option Nat :=
  let value :=
    if '0' ≤ c ∧ c ≤ '9' then some (c.toNat - '0'.toNat)
    else if 'a' ≤ c ∧ c ≤ 'z' then some (c.toNat - 'a'.toNat + 10)
    else if 'A' ≤ c ∧ c ≤ 'Z' then some (c.toNat - 'A'.toNat + 10)
    else none
  value.filter (· < radix)

/-- The number written by digits alone, of which there is at least one. -/
def digits? (radix : Nat) (s : List Char) : Option Nat :=
  if s.isEmpty then none
  else s.foldlM (fun n c => (digit? radix c).map (n * radix + ·)) 0

/-- Digits after an optional plus, for a value below `bound`. -/
def unsigned? (radix bound : Nat) (s : List Char) : Option Nat :=
  let body := match s with
    | '+' :: rest => rest
    | _ => s
  (digits? radix body).filter (· < bound)

/-- Digits after an optional sign, for a value from `-bound` to `bound - 1`. -/
def signed? (radix bound : Nat) (s : List Char) : Option Int :=
  match s with
  | '-' :: rest => ((digits? radix rest).filter (· ≤ bound)).map fun n => -(n : Int)
  | _ => (unsigned? radix bound s).map Int.ofNat

/-- The character of a digit below 36. -/
def digitChar (d : Nat) : Char :=
  if d < 10 then Char.ofNat ('0'.toNat + d) else Char.ofNat ('a'.toNat + d - 10)

/-- The digits of `n`, in front of `tail`; none for zero. -/
def radixLoop (radix : Nat) (n : Nat) (tail : List Char) : List Char :=
  if _h : n = 0 ∨ radix < 2 then tail
  else radixLoop radix (n / radix) (digitChar (n % radix) :: tail)
termination_by n
decreasing_by exact Nat.div_lt_self (by omega) (by omega)

/-- `n` in a radix from 2 to 36. -/
def ofNat (radix n : Nat) : List Char :=
  if n = 0 then ['0'] else radixLoop radix n []

/-- `s` on the right of `width` places, the free ones filled with `fill`. -/
def padLeft (width : Nat) (fill : Char) (s : List Char) : List Char :=
  List.replicate (width - s.length) fill ++ s

/-- `n` in decimal with at least `width` digits. -/
def padded (width n : Nat) : String :=
  String.ofList (padLeft width '0' (ofNat 10 n))

end Workflow.Text
