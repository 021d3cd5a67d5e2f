import Workflow.Eval.Natives
import Workflow.Text.LetterCase
import Workflow.Text.Search

/-! The methods of texts. Positions count characters. -/
namespace Workflow.Eval

open Text

/-- The position that an argument names, from the end if it is negative, moved into a collection of
`length` items. -/
def position (v : Value) (length default : Nat) : Nat :=
  match v with
  | .undefined => default
  | _ =>
    let x := v.toInteger
    if x < 0.0 then Number.clampNat length (Float.ofNat length + x)
    else Number.clampNat length x

/-- The position that an argument names, moved into a text of `length` characters. -/
def clampedPosition (v : Value) (length default : Nat) : Nat :=
  match v with
  | .undefined => default
  | _ => Number.clampNat length v.toInteger

/-- A single position, from the end if it is negative; `none` before the start. -/
def single? (v : Value) (length : Nat) : Option Nat :=
  let x := v.toInteger
  let y := if x < 0.0 then Float.ofNat length + x else x
  if y < 0.0 then none else some (Number.clampNat Number.maxSize y)

/-- The part of a list between two positions. -/
def between (l : List α) (start stop : Nat) : List α :=
  (l.drop start).take (stop - start)

/-- What arguments make of a list by two positions. -/
def sliceOf (l : List α) (args : List Value) : List α :=
  let n := l.length
  between l (position (Value.arg args 0) n 0) (position (Value.arg args 1) n n)

def substringOf (s : List Char) (args : List Value) : List Char :=
  let n := s.length
  let a := clampedPosition (Value.arg args 0) n 0
  let b := clampedPosition (Value.arg args 1) n n
  between s (min a b) (max a b)

/-- The character at a position that does not count from the end. -/
def charAt? (s : List Char) (v : Value) : Option Char :=
  let x := v.toInteger
  if x < 0.0 then none else s[Number.clampNat Number.maxSize x]?

/-- A position as a value; `-1` if there is none. -/
def orMinusOne (i : Option Nat) : Value :=
  match i with
  | some i => .ofNat i
  | none => .number (-1.0)

/-- Where `needle` occurs first from a position on. -/
def indexFrom? (needle s : List Char) (start : Nat) : Option Nat :=
  (indexOf? needle (s.drop start)).map (start + ·)

/-- The pieces of a text between the occurrences of another one; without any they are its
characters. -/
def pieces (s : List Char) (separator : Value) : List (List Char) :=
  match separator with
  | .undefined => [s]
  | _ =>
    match separator.display.toList with
    | [] => s.map fun c => [c]
    | p => splitOn p s

def splitText (s : List Char) (args : List Value) : EvalM Value :=
  let parts := pieces s (Value.arg args 0)
  let parts := match Value.arg args 1 with
    | .undefined => parts
    | limit => parts.take (Number.clampNat Number.maxSize limit.toInteger)
  newArray (parts.map fun part => .string (String.ofList part))

/-- The text that takes the place of an occurrence: what a function returns for it, or the text of
any other value. -/
def replacement (call : Caller) (pattern : String) (replacer : Value) : EvalM String :=
  if replacer.isFunction then do return (← call replacer [.string pattern]).display
  else pure replacer.display

/-- `out` and a replacement behind it. -/
def withReplacement (call : Caller) (pattern : String) (replacer : Value) (out : String) :
    EvalM String := do
  let out := out ++ (← replacement call pattern replacer)
  checkBytes out.utf8ByteSize
  return out

/-- Puts a replacement before each character of `s` and behind them all. -/
def interleave (call : Caller) (replacer : Value) (out : String) : List Char → EvalM String
  | [] => withReplacement call "" replacer out
  | c :: rest => do
    let out ← withReplacement call "" replacer out
    interleave call replacer (out.push c) rest

/-- Replaces all occurrences of a pattern that is not empty. -/
def replaceAllFrom (call : Caller) (pattern : List Char) (replacer : Value) (out : String)
    (s : List Char) : EvalM String :=
  if _hp : pattern = [] then pure (out ++ String.ofList s)
  else
    match _h : cut? pattern s with
    | none => pure (out ++ String.ofList s)
    | some (before, after) => do
      let out := out ++ String.ofList before
      let out ← withReplacement call (String.ofList pattern) replacer out
      replaceAllFrom call pattern replacer out after
termination_by s.length
decreasing_by
  have := congrArg List.length (cut?_append _h)
  have := List.length_pos_iff.2 _hp
  simp only [List.length_append] at *
  omega

/-- Replaces the first occurrence. -/
def replaceFirst (call : Caller) (pattern : List Char) (replacer : Value) (s : List Char) :
    EvalM String :=
  match cut? pattern s with
  | none => pure (String.ofList s)
  | some (before, after) => do
    let out ← withReplacement call (String.ofList pattern) replacer (String.ofList before)
    return out ++ String.ofList after

def replaceAll (call : Caller) (pattern : List Char) (replacer : Value) (s : List Char) :
    EvalM String :=
  if pattern.isEmpty then interleave call replacer "" s
  else replaceAllFrom call pattern replacer "" s

/-- The first `n` characters of a text that is repeated without end. -/
def cycle (fill : List Char) (n : Nat) : List Char :=
  ((List.replicate (n / fill.length + 1) fill).flatten).take n

/-- Fills a text up to a length, in front or behind. -/
def pad (inFront : Bool) (s : String) (args : List Value) : EvalM Value := do
  let target := Number.clampNat Number.maxSize (Value.arg args 0).toInteger
  let fill := match Value.arg args 1 with
    | .undefined => " "
    | v => v.display
  let length := s.length
  if target ≤ length ∨ fill = "" then return .string s
  else
    reserveBytes target
    let padding := String.ofList (cycle fill.toList (target - length))
    return .string (if inFront then padding ++ s else s ++ padding)

def repeated (s : String) (v : Value) : EvalM Value := do
  let count := v.toInteger
  if count < 0.0 ∨ count.isInf then outOfRange .count
  else
    let n := Number.clampNat Number.maxSize count
    reserveBytes (min (s.utf8ByteSize * n) Number.maxSize)
    return .string (if s = "" then "" else String.join (List.replicate n s))

def orderNumber : Ordering → Float
  | .lt => -1.0
  | .eq => 0.0
  | .gt => 1.0

def stringMethod (call : Caller) (s : String) (method : StringMethod) (args : List Value) :
    EvalM Value := do
  let chars := s.toList
  let first := Value.arg args 0
  let text (l : List Char) : EvalM Value := pure (.string (String.ofList l))
  match method with
  | .toUpperCase => text (upper chars)
  | .toLowerCase => text (lower chars)
  | .trim => text (Text.trim chars)
  | .trimStart => text (Text.trimStart chars)
  | .trimEnd => text (Text.trimEnd chars)
  | .includes => return .bool (Text.contains first.display.toList chars)
  | .startsWith => return .bool (first.display.toList.isPrefixOf chars)
  | .endsWith => return .bool (first.display.toList.isSuffixOf chars)
  | .indexOf =>
    let start := position (Value.arg args 1) chars.length 0
    return orMinusOne (indexFrom? first.display.toList chars start)
  | .lastIndexOf => return orMinusOne (lastIndexOf? first.display.toList chars)
  | .slice => text (sliceOf chars args)
  | .substring => text (substringOf chars args)
  | .split => splitText chars args
  | .replace =>
    newString (← replaceFirst call first.display.toList (Value.arg args 1) chars)
  | .replaceAll =>
    newString (← Eval.replaceAll call first.display.toList (Value.arg args 1) chars)
  | .padStart => pad true s args
  | .padEnd => pad false s args
  | .repeat => repeated s first
  | .charAt => text (charAt? chars first).toList
  | .charCodeAt =>
    return .number ((charAt? chars first).elim Number.nan fun c => Float.ofNat c.toNat)
  | .at =>
    match (single? first chars.length).bind (chars[·]?) with
    | some c => return .ofChar c
    | none => return .undefined
  | .concat => newString (args.foldl Value.write s)
  | .localeCompare => return .number (orderNumber (Value.textOrder s first.display))
  | .toString | .valueOf => return .string s

end Workflow.Eval
