import Workflow.Eval.Value
import Workflow.Number.Layout
import Workflow.Number.Literal
import Workflow.Time.Written

/-! Values as numbers, as text and as JSON, and comparisons between them. -/
namespace Workflow.Eval.Value

/-- The number that a value counts as. An array of one item counts as that item. -/
def toNumber : Value → Float
  | .undefined => Number.nan
  | .null => 0.0
  | .bool b => if b then 1.0 else 0.0
  | .number x => x
  | .string s => Number.ofText s.toList
  | .array _ [] => 0.0
  | .array _ [v] => v.toNumber
  | .array _ _ => Number.nan
  | .object _ _ => Number.nan
  | .date t => Number.ofInt t.toMillis
  | .moment m => Number.ofInt m.utc.toMillis
  | .space _ => Number.nan
  | .func _ => Number.nan
termination_by structural v => v

/-- The whole number that a value counts as; what is no number counts as zero. -/
def toInteger (v : Value) : Float :=
  let x := v.toNumber
  if x.isNaN then 0.0 else Number.truncate x

mutual

/-- The text of a value behind `out`. Items of an array stand between commas. -/
def write (out : String) : Value → String
  | .undefined => out ++ "undefined"
  | .null => out ++ "null"
  | .bool b => out ++ if b then "true" else "false"
  | .number x => out ++ Number.display x
  | .string s => out ++ s
  | .array _ items => writeItems out true items
  | .object _ _ => out ++ "[object Object]"
  | .date t => out ++ t.isoText
  | .moment m => out ++ m.isoText
  | .space s => out ++ "[object " ++ s.name ++ "]"
  | .func _ => out ++ "function () \x7b [native code] \x7d"
termination_by structural v => v

def writeItems (out : String) (first : Bool) : List Value → String
  | [] => out
  | .undefined :: rest | .null :: rest =>
    writeItems (if first then out else out.push ',') false rest
  | v :: rest => writeItems (write (if first then out else out.push ',') v) false rest
termination_by structural items => items

end

def display (v : Value) : String :=
  write "" v

/-- A number as JSON: whole numbers that are safe have no fraction, and what is not finite
is null. -/
def numberToJson (x : Float) : Json :=
  match Number.parts x with
  | .finite negative m e =>
    match Number.wholePart m e with
    | (n, false) =>
      if n ≤ Number.maxSafe then .ofInt (Number.signed negative n) else .number (.double x)
    | _ => .number (.double x)
  | _ => .null

mutual

/-- The JSON of a value; `none` for what JSON cannot carry. Such items of an array become null, such
entries of an object are left out. -/
def toJson? : Value → Option Json
  | .undefined => none
  | .null => some .null
  | .bool b => some (.bool b)
  | .number x => some (numberToJson x)
  | .string s => some (.string s)
  | .array _ items => some (.array (itemsToJson [] items))
  | .object _ entries => some (.object (entriesToJson [] entries))
  | .date t => some (.string t.isoText)
  | .moment m => some (.string m.isoText)
  | .space _ => none
  | .func _ => none
termination_by structural v => v

def itemsToJson (done : List Json) : List Value → List Json
  | [] => done.reverse
  | v :: rest => itemsToJson ((toJson? v).getD .null :: done) rest
termination_by structural items => items

def entriesToJson (done : List (String × Json)) : List (String × Value) → List (String × Json)
  | [] => done.reverse
  | (key, v) :: rest =>
    entriesToJson (match toJson? v with
      | some j => (key, j) :: done
      | none => done) rest
termination_by structural entries => entries

end

mutual

/-- The value of JSON whose arrays and objects are marked as parts of `mark`. -/
def ofJson (mark : Mark) : Json → Value
  | .null => .null
  | .bool b => .bool b
  | .number n => .number n.toDouble
  | .string s => .string s
  | .array items => .array mark (ofJsonItems mark 0 [] items)
  | .object entries => .object mark (ofJsonEntries mark 0 [] entries)
termination_by structural j => j

def ofJsonItems (mark : Mark) (i : Nat) (done : List Value) : List Json → List Value
  | [] => done.reverse
  | j :: rest => ofJsonItems mark (i + 1) (ofJson (mark.part i) j :: done) rest
termination_by structural items => items

def ofJsonEntries (mark : Mark) (i : Nat) (done : List (String × Value)) :
    List (String × Json) → List (String × Value)
  | [] => done.reverse
  | (key, j) :: rest => ofJsonEntries mark (i + 1) ((key, ofJson (mark.part i) j) :: done) rest
termination_by structural entries => entries

end

/-- Equality without conversion. Arrays and objects are equal only to themselves, functions to
nothing. -/
def strictEq : Value → Value → Bool
  | .undefined, .undefined => true
  | .null, .null => true
  | .bool a, .bool b => a == b
  | .number x, .number y => x == y
  | .string s, .string t => s == t
  | .array m _, .array n _ => m == n
  | .object m _, .object n _ => m == n
  | .date s, .date t => s == t
  | .moment s, .moment t => s.utc == t.utc
  | .space s, .space t => s == t
  | _, _ => false

/-- Equality in which numbers are also equal to themselves when they are no numbers. -/
def sameItem : Value → Value → Bool
  | .number x, .number y => x == y || (x.isNaN && y.isNaN)
  | v, w => v.strictEq w

def isCollection : Value → Bool
  | .array .. | .object .. => true
  | _ => false

/-- Equality of texts and numbers after conversion. -/
def atomEq : Value → Value → Bool
  | .number x, .string s => x == Number.ofText s.toList
  | .string s, .number x => Number.ofText s.toList == x
  | v, w => v.strictEq w

def isAtom : Value → Bool
  | .string _ | .number _ => true
  | _ => false

def isBool : Value → Bool
  | .bool _ => true
  | _ => false

/-- Equality after conversion. -/
def looseEq (v w : Value) : Bool :=
  if v.isNullish || w.isNullish then v.isNullish && w.isNullish
  else if v.isBool || w.isBool then v.toNumber == w.toNumber
  else if v.isCollection && w.isAtom then atomEq (.string v.display) w
  else if v.isAtom && w.isCollection then atomEq v (.string w.display)
  else atomEq v w

/-- The value that stands for another one in sums and comparisons. -/
def toPrimitive : Value → Value
  | .moment m => .number (Number.ofInt m.utc.toMillis)
  | .array mark items => .string (display (.array mark items))
  | .object mark entries => .string (display (.object mark entries))
  | .date t => .string t.isoText
  | .space s => .string (display (.space s))
  | .func f => .string (display (.func f))
  | v => v

def textOrder (s t : String) : Ordering :=
  if s < t then .lt else if s = t then .eq else .gt

def numberOrder? (x y : Float) : Option Ordering :=
  if x < y then some .lt
  else if x == y then some .eq
  else if y < x then some .gt
  else none

/-- The order of two values that stand for themselves: that of their texts if both are texts, else
of their numbers, if they have any. -/
def order? : Value → Value → Option Ordering
  | .string s, .string t => some (textOrder s t)
  | v, w => numberOrder? v.toNumber w.toNumber

/-- Whether a value goes behind another one by their texts; nothing goes behind everything. -/
def goesBehind : Value → Value → Bool
  | .undefined, .undefined => false
  | .undefined, _ => true
  | _, .undefined => false
  | v, w => textOrder v.display w.display == .gt

end Workflow.Eval.Value
