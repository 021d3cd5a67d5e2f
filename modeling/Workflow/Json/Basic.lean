import Workflow.Fields

/-! JSON values. -/
namespace Workflow

/-- A number of JSON text: whole numbers that fit a word of 64 bits are kept exactly, all others as
doubles. -/
inductive Numeral where
  | whole (n : Int)
  | double (x : Float)
  deriving Inhabited

inductive Json where
  | null
  | bool (b : Bool)
  | number (n : Numeral)
  | string (s : String)
  | array (items : List Json)
  | object (entries : List (String × Json))
  deriving Inhabited

def Numeral.toDouble : Numeral → Float
  | .whole n => if n < 0 then -Float.ofNat n.natAbs else Float.ofNat n.natAbs
  | .double x => x

namespace Json

def ofNat (n : Nat) : Json :=
  .number (.whole n)

def ofInt (n : Int) : Json :=
  .number (.whole n)

/-- An object whose entries are given in any order. -/
def ofEntries (entries : List (String × Json)) : Json :=
  .object (Fields.ofList entries)

def isNull : Json → Bool
  | .null => true
  | _ => false

/-- The value under a key of an object. -/
def field? : Json → String → Option Json
  | .object entries, key => Fields.get? entries key
  | _, _ => none

mutual

/-- How deep arrays and objects are nested. -/
def nesting : Json → Nat
  | .array items => nestingList items + 1
  | .object entries => nestingEntries entries + 1
  | _ => 0
termination_by structural v => v

def nestingList : List Json → Nat
  | [] => 0
  | v :: rest => max v.nesting (nestingList rest)
termination_by structural items => items

def nestingEntries : List (String × Json) → Nat
  | [] => 0
  | (_, v) :: rest => max v.nesting (nestingEntries rest)
termination_by structural entries => entries

end

end Json

end Workflow
