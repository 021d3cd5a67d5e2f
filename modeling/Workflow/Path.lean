import Workflow.Json.Basic
import Workflow.Text.Blank
import Workflow.Text.Digits

/-! Paths into JSON values. `items[0].name`, `items.0.name` and `["items"][0]["name"]` are the same
path; it ends without a value at the first hop that is missing. -/
namespace Workflow.Path

open Text

/-- The text of a bracket up to its `]`, or to the end of the path, and what follows it. A text that
starts with a quote loses all quotes of that kind, any other is trimmed. -/
def bracket (s : List Char) : List Char × List Char :=
  let body := s.takeWhile (· != ']')
  let after := (s.dropWhile (· != ']')).drop 1
  match body with
  | '\x22' :: inner => (inner.filter (· != '\x22'), after)
  | '\'' :: inner => (inner.filter (· != '\''), after)
  | _ => (trim body, after)

theorem length_bracket_le (s : List Char) : (bracket s).2.length ≤ s.length := by
  have h : ((s.dropWhile (· != ']')).drop 1).length ≤ s.length := by
    have := (List.dropWhile_sublist (l := s) (· != ']')).length_le
    rw [List.length_drop]
    omega
  dsimp only [bracket]
  split <;> exact h

/-- A segment, unless it is empty, in front of others. -/
def segment (s : List Char) (rest : List (List Char)) : List (List Char) :=
  if s.isEmpty then rest else s :: rest

/-- The segments of a path behind the characters of one that has begun, last first. -/
def segmentsFrom (current : List Char) (s : List Char) : List (List Char) :=
  match s with
  | [] => segment current.reverse []
  | c :: rest =>
    if c = '[' then
      segment current.reverse (segment (bracket rest).1 (segmentsFrom [] (bracket rest).2))
    else if c = '.' then segment current.reverse (segmentsFrom [] rest)
    else segmentsFrom (c :: current) rest
termination_by s.length
decreasing_by
  · have := length_bracket_le rest
    simp only [List.length_cons]
    omega
  · simp
  · simp

/-- The segments of a path; empty ones are dropped. -/
def segments (path : List Char) : List String :=
  (segmentsFrom [] path).map String.ofList

/-- The path with a dot between its segments, for display. -/
def normalize (path : List Char) : String :=
  ".".intercalate (segments path)

/-- One hop: a key of an object or an index of an array. -/
def step? (v : Json) (segment : String) : Option Json :=
  match v with
  | .object entries => Fields.get? entries segment
  | .array items =>
    match unsigned? 10 0x1_0000_0000_0000_0000 segment.toList with
    | some i => items[i]?
    | none => none
  | _ => none

/-- The value at the end of the hops. -/
def follow? (v : Json) : List String → Option Json
  | [] => some v
  | segment :: rest => (step? v segment).bind (follow? · rest)

def get? (v : Json) (path : List Char) : Option Json :=
  follow? v (segments path)

/-- How many items an array, or characters a text, has. -/
def length? : Json → Option Nat
  | .array items => some items.length
  | .string s => some s.length
  | _ => none

/-- The value at the end of the hops, where a last hop `length` counts items or characters. -/
def lookupSegments (v : Json) : List String → Option Json
  | [] => some v
  | ["length"] =>
    match length? v with
    | some n => some (.ofNat n)
    | none => step? v "length"
  | segment :: rest => (step? v segment).bind (lookupSegments · rest)

def lookup (v : Json) (path : List Char) : Option Json :=
  lookupSegments v (segments path)

/-- `lookup` where the first segment is a key of `m`. -/
def lookupIn (m : Fields Json) (path : List Char) : Option Json :=
  match segments path with
  | [] => some (.object m)
  | head :: rest => (Fields.get? m head).bind (lookupSegments · rest)

end Workflow.Path
