import Workflow.Json.Basic

/-! Reading typed data out of JSON values. -/
namespace Workflow.Json

def asString? : Json → Option String
  | .string s => some s
  | _ => none

/-- A word of a fixed choice: a string, or an object that has it as its only key, with
null behind. -/
def asWord? : Json → Option String
  | .string s | .object [(s, .null)] => some s
  | _ => none

def asBool? : Json → Option Bool
  | .bool b => some b
  | _ => none

def asObject? : Json → Option (Fields Json)
  | .object entries => some entries
  | _ => none

def asArray? : Json → Option (List Json)
  | .array items => some items
  | _ => none

/-- A whole number from 0 on that is below `bound`; a double is none, even without a fraction. -/
def asNat? (bound : Nat) : Json → Option Nat
  | .number (.whole n) => if 0 ≤ n ∧ n < bound then some n.toNat else none
  | _ => none

/-- The bound of a size. -/
def sizeBound : Nat :=
  0x1_0000_0000_0000_0000

/-- The values of a record with the given field names, from an object or, by position, from an
array that is not longer. Other keys of an object are ignored. -/
def record? (names : List String) : Json → Option (List (Option Json))
  | .object entries => some (names.map (Fields.get? entries))
  | .array items =>
    if items.length ≤ names.length then
      some (items.map some ++ List.replicate (names.length - items.length) none)
    else none
  | _ => none

/-- A field that has to be there. -/
def required (read : Json → Option α) (v : Option Json) : Option α :=
  v.bind read

/-- A field that can be missing, but not null. -/
def withDefault (value : α) (read : Json → Option α) : Option Json → Option α
  | none => some value
  | some v => read v

/-- A field that can be missing or null. -/
def optional (read : Json → Option α) : Option Json → Option (Option α)
  | none | some .null => some none
  | some v => (read v).map some

end Workflow.Json
