import Workflow.Eval.Fault
import Workflow.Eval.Value
import Workflow.Limits
import Workflow.Number.Double
import Workflow.Time.Transition

/-! Evaluations, and what they use up. The meter goes on running after a fault. -/
namespace Workflow.Eval

/-- What an evaluation has used so far, and how deep it is. -/
structure Meter where
  ticks : Nat := 0
  depth : Nat := 0
  calls : Nat := 0
  /-- Items, entries and bytes of text. -/
  allocated : Nat := 0
  /-- How many marks were given out. -/
  made : Nat := 0
  deriving Repr, DecidableEq

/-- What stays the same during an evaluation. -/
structure Setting where
  limits : Limits
  now : Time.Timestamp
  roots : List (String × Value)
  /-- The zones that have names. -/
  zones : Time.ZoneDatabase
  /-- The milliseconds that have gone by at each tick. -/
  elapsed : Nat → Nat := fun _ => 0

/-- An evaluation in a setting, which can end with a fault. -/
abbrev EvalM (α : Type) :=
  ReaderT Setting (EStateM Fault Meter) α

def fail (f : Fault) : EvalM α :=
  throw f

def exceed (cause : Excess) : EvalM α :=
  fail (.exceeded cause)

def mismatch (cause : Mismatch) : EvalM α :=
  fail (.mismatch cause)

def outOfRange (cause : Range) : EvalM α :=
  fail (.outOfRange cause)

/-- A value that has to be there. -/
def orOutOfRange (cause : Range) : Option α → EvalM α
  | some a => pure a
  | none => outOfRange cause

def getLimits : EvalM Limits :=
  return (← read).limits

/-- How many ticks lie between two looks at the clock. -/
def clockInterval : Nat :=
  64

/-- Counts a step, and looks at the clock from time to time. -/
def tick : EvalM Unit := do
  let setting ← read
  let limit := setting.limits.timeoutMs
  let ticks := (← get).ticks + 1
  modify fun m => { m with ticks }
  if ticks % clockInterval = 0 ∧ limit ≤ setting.elapsed ticks then fail (.timeout limit)

/-- Counts a step that handles a collection, and checks its length. -/
def checkLength (length : Nat) : EvalM Unit := do
  tick
  let limit := (← getLimits).maxCollectionLength
  if limit < length then exceed (.collection length limit)

/-- Adds to what is allocated, and checks the sum. -/
def charge (units : Nat) : EvalM Unit := do
  let limit := (← getLimits).maxTotalElements
  let allocated := min ((← get).allocated + units) Number.maxSize
  modify fun m => { m with allocated }
  if limit < allocated then exceed (.allocation limit)

def reserveItems (length : Nat) : EvalM Unit := do
  checkLength length
  charge length

def checkBytes (bytes : Nat) : EvalM Unit := do
  let limit := (← getLimits).maxStringLength
  if limit < bytes then exceed (.string bytes limit)

def reserveBytes (bytes : Nat) : EvalM Unit := do
  checkBytes bytes
  charge bytes

/-- A mark that no other array or object has. -/
def freshMark : EvalM Mark := do
  let serial := (← get).made
  modify fun m => { m with made := serial + 1 }
  return { origin := .made serial }

/-- A text that was charged for. -/
def newString (s : String) : EvalM Value := do
  reserveBytes s.utf8ByteSize
  return .string s

/-- An array that is not charged for. -/
def freeArray (items : List Value) : EvalM Value :=
  return .array (← freshMark) items

/-- An array that was charged for. -/
def newArray (items : List Value) : EvalM Value := do
  reserveItems items.length
  freeArray items

/-- An object that is not charged for. -/
def freeObject (entries : List (String × Value)) : EvalM Value :=
  return .object (← freshMark) (Fields.ofList entries)

/-- Runs `body` between two changes of the meter, the second of which is made after a fault as
well. -/
def bracketed (enter leave : Meter → Meter) (body : EvalM α) : EvalM α := fun setting meter =>
  match body setting (enter meter) with
  | .ok a meter => .ok a (leave meter)
  | .error f meter => .error f (leave meter)

/-- One level deeper, up to a limit. -/
def deeper (cause : Nat → Excess) (body : EvalM α) : EvalM α := do
  tick
  bracketed (fun m => { m with depth := m.depth + 1 }) (fun m => { m with depth := m.depth - 1 }) do
    let limit := (← getLimits).nesting
    if limit < (← get).depth then exceed (cause limit) else body

/-- One function call deeper, up to a limit. -/
def calling (body : EvalM α) : EvalM α := do
  let limit := (← getLimits).maxDepth
  if limit ≤ (← get).calls then exceed (.calls limit)
  else
    bracketed (fun m => { m with calls := m.calls + 1 }) (fun m => { m with calls := m.calls - 1 })
      body

/-- A value or a chain of links that ended early. -/
abbrev Link := Option Value

/-- The value of an expression. A chain that ended early has none. -/
def asValue (body : EvalM Link) : EvalM Value :=
  deeper .evaluation do return (← body).getD .undefined

/-- The value of the expression before a link. -/
def asLink (isChain : Bool) (body : EvalM Link) : EvalM Link :=
  if isChain then deeper (fun _ => .chain) body else some <$> asValue body

end Workflow.Eval
