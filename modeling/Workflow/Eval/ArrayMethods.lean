import Workflow.Eval.StringMethods

/-! The methods of arrays. A function that is called for the items gets each with its position and
the array itself. -/
namespace Workflow.Eval

/-- The items for which `keep` holds. -/
def filterFrom (call : List Value → EvalM Value) (rest : Nat → List Value) (i : Nat)
    (done : List Value) : List Value → EvalM (List Value)
  | [] => return done.reverse
  | v :: items => do
    let keep := (← call (v :: rest i)).isTruthy
    filterFrom call rest (i + 1) (if keep then v :: done else done) items

/-- The first item whose result is true, or is not, as `wanted` says, and its position. -/
def searchFrom (call : List Value → EvalM Value) (rest : Nat → List Value) (wanted : Bool)
    (i : Nat) : List Value → EvalM (Option (Nat × Value))
  | [] => return none
  | v :: items => do
    if (← call (v :: rest i)).isTruthy = wanted then return some (i, v)
    else searchFrom call rest wanted (i + 1) items

def forEachFrom (call : List Value → EvalM Value) (rest : Nat → List Value) (i : Nat) :
    List Value → EvalM Value
  | [] => return .undefined
  | v :: items => do
    let _ ← call (v :: rest i)
    forEachFrom call rest (i + 1) items

def reduceFrom (call : List Value → EvalM Value) (rest : Nat → List Value) (i : Nat) (sum : Value) :
    List Value → EvalM Value
  | [] => return sum
  | v :: items => do
    reduceFrom call rest (i + 1) (← call (sum :: v :: rest i)) items

/-- The items of nested arrays down to a depth, behind `done`, last first. -/
def flattenOnto (depth : Nat) (done : List Value) (items : List Value) : List Value :=
  match depth with
  | 0 => items.reverse ++ done
  | depth + 1 =>
    items.foldl (fun done v =>
      match v with
      | .array _ inner => flattenOnto depth done inner
      | v => v :: done) done

/-- The texts of the items behind `out`, with a separator between them; missing values have none. -/
def joinFrom (separator out : String) (first : Bool) : List Value → EvalM String
  | [] => return out
  | v :: items => do
    let out := if first then out else out ++ separator
    let out := if v.isNullish then out else v.write out
    checkBytes out.utf8ByteSize
    joinFrom separator out false items

/-- The items behind others; arrays stand for their items. -/
def concatFrom (items : List Value) : List Value → EvalM (List Value)
  | [] => return items
  | v :: args => do
    let items := match v with
      | .array _ more => items ++ more
      | v => items ++ [v]
    checkLength items.length
    concatFrom items args

/-- The items of two sorted lists in order behind `done`, last first; of equals the left one goes
first. -/
def mergeFrom (behind : Value → Value → EvalM Bool) (done : List Value) :
    (left right : List Value) → EvalM (List Value)
  | [], right => return done.reverse ++ right
  | left, [] => return done.reverse ++ left
  | a :: left, b :: right => do
    if ← behind a b then mergeFrom behind (b :: done) (a :: left) right
    else mergeFrom behind (a :: done) left (b :: right)
termination_by left right => left.length + right.length

/-- The items in order: those of each half are sorted, the left half first, and merged. -/
def sortItems (behind : Value → Value → EvalM Bool) (items : List Value) : EvalM (List Value) := do
  if _h : items.length ≤ 1 then return items
  else
    let half := items.length / 2
    let left ← sortItems behind (items.take half)
    let right ← sortItems behind (items.drop half)
    mergeFrom behind [] left right
termination_by items.length
decreasing_by
  · simp only [List.length_take]
    omega
  · simp only [List.length_drop]
    omega

/-- Whether the first of two items goes behind the second: as a function says, or by their texts. -/
def comparison (call : Caller) (args : List Value) : EvalM (Value → Value → EvalM Bool) := do
  match Value.arg args 0 with
  | .undefined => return fun a b => pure (a.goesBehind b)
  | _ =>
    let f ← callback args 0 "sort"
    return fun a b => do return 0.0 < (← call f [a, b]).toNumber

/-- The position of the last item with a property. -/
def lastPosition? (p : Value → Bool) (items : List Value) : Option Nat :=
  (items.reverse.findIdx? p).map fun i => items.length - 1 - i

def arrayMethod (call : Caller) (mark : Mark) (items : List Value) (method : ArrayMethod)
    (args : List Value) : EvalM Value := do
  let self : Value := .array mark items
  let rest (i : Nat) : List Value := [.ofNat i, self]
  let first := Value.arg args 0
  match method with
  | .map =>
    let f ← callback args 0 method.name
    newArray (← mapFrom (call f) rest 0 [] items)
  | .flatMap =>
    let f ← callback args 0 method.name
    newArray (flattenOnto 1 [] (← mapFrom (call f) rest 0 [] items)).reverse
  | .filter =>
    let f ← callback args 0 method.name
    freeArray (← filterFrom (call f) rest 0 [] items)
  | .find =>
    let f ← callback args 0 method.name
    return ((← searchFrom (call f) rest true 0 items).map (·.2)).getD .undefined
  | .findIndex =>
    let f ← callback args 0 method.name
    return orMinusOne ((← searchFrom (call f) rest true 0 items).map (·.1))
  | .some =>
    let f ← callback args 0 method.name
    return .bool (← searchFrom (call f) rest true 0 items).isSome
  | .every =>
    let f ← callback args 0 method.name
    return .bool (← searchFrom (call f) rest false 0 items).isNone
  | .forEach =>
    let f ← callback args 0 method.name
    forEachFrom (call f) rest 0 items
  | .reduce =>
    let f ← callback args 0 method.name
    match args[1]?, items with
    | some start, _ => reduceFrom (call f) rest 0 start items
    | none, v :: items => reduceFrom (call f) rest 1 v items
    | none, [] => mismatch .emptyReduce
  | .join =>
    let separator := match first with
      | .undefined => ","
      | v => v.display
    newString (← joinFrom separator "" true items)
  | .toString => newString (← joinFrom "," "" true items)
  | .includes => return .bool (items.any (·.sameItem first))
  | .indexOf => return orMinusOne (items.findIdx? (·.strictEq first))
  | .lastIndexOf => return orMinusOne (lastPosition? (·.strictEq first) items)
  | .slice => freeArray (sliceOf items args)
  | .concat => newArray (← concatFrom items args)
  | .reverse => freeArray items.reverse
  | .flat =>
    let depth := match first with
      | .undefined => 1
      | v => Number.clampNat 64 v.toInteger
    newArray (flattenOnto depth [] items).reverse
  | .at => return ((single? first items.length).bind (items[·]?)).getD .undefined
  | .sort => freeArray (← sortItems (← comparison call args) items)

end Workflow.Eval
