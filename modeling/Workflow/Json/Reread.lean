import Workflow.Json.Parser
import Workflow.Json.Printer

/-! A value after it was written as text and read back: numbers are read from their own text, all
else stays as it is. -/
namespace Workflow

def Numeral.reread? (n : Numeral) : Option Numeral :=
  match n with
  | .whole _ => some n
  | .double x =>
    match Json.readNumeral? (Number.jsonLayout.text x).toList with
    | some (m, []) => some m
    | _ => none

namespace Json

mutual

/-- The value read back from its own text; `none` beyond `room` levels of nesting. -/
def reread? (room : Nat) : Json → Option Json
  | .number n => n.reread?.map .number
  | .array items =>
    match room with
    | 0 => none
    | room + 1 => (rereadItems? room items).map .array
  | .object entries =>
    match room with
    | 0 => none
    | room + 1 => (rereadEntries? room entries).map .object
  | v => some v
termination_by structural v => v

def rereadItems? (room : Nat) : List Json → Option (List Json)
  | [] => some []
  | v :: rest => do return (← reread? room v) :: (← rereadItems? room rest)
termination_by structural items => items

def rereadEntries? (room : Nat) : List (String × Json) → Option (List (String × Json))
  | [] => some []
  | (key, v) :: rest => do return (key, ← reread? room v) :: (← rereadEntries? room rest)
termination_by structural entries => entries

end

end Json

end Workflow
