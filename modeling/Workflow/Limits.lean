import Workflow.Json.Decode

/-! How much an evaluation may use. -/
namespace Workflow

structure Limits where
  timeoutMs : Nat := 5000
  maxExpressionLength : Nat := 10000
  maxCollectionLength : Nat := 100000
  maxStringLength : Nat := 1048576
  maxDepth : Nat := 64
  maxTotalElements : Nat := 4000000
  deriving Repr, DecidableEq

namespace Limits

/-- The names of the limits, in the order of the fields. -/
def names : List String :=
  ["timeout_ms", "max_expression_length", "max_collection_len", "max_string_len", "max_depth",
    "max_total_elements"]

/-- How deep evaluations can be nested. The product is a size, which wraps around at its bound. -/
def nesting (l : Limits) : Nat :=
  l.maxDepth * 4 % Json.sizeBound

/-- Limits of which some are given. -/
def ofJson? (v : Json) : Option Limits := do
  let default : Limits := {}
  let read (value : Nat) := Json.withDefault value (Json.asNat? Json.sizeBound)
  match ← v.record? names with
  | [timeout, expression, collection, string, depth, total] =>
    return {
      timeoutMs := ← read default.timeoutMs timeout
      maxExpressionLength := ← read default.maxExpressionLength expression
      maxCollectionLength := ← read default.maxCollectionLength collection
      maxStringLength := ← read default.maxStringLength string
      maxDepth := ← read default.maxDepth depth
      maxTotalElements := ← read default.maxTotalElements total }
  | _ => none

def toJson (l : Limits) : Json :=
  .ofEntries (names.zip ([l.timeoutMs, l.maxExpressionLength, l.maxCollectionLength,
    l.maxStringLength, l.maxDepth, l.maxTotalElements].map Json.ofNat))

end Limits

end Workflow
