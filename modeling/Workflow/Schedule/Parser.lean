import Workflow.Issue
import Workflow.Schedule.Cron
import Workflow.Text.Blank
import Workflow.Text.Digits
import Workflow.Text.Search

/-! Reading cron schedules. All that is wrong with a text is reported together. -/
namespace Workflow.Schedule

inductive AtomFault where
  | notNumber (text : List Char)
  | outOfRange (n : Nat)
  | backwards (start stop : Nat)
  | badStep (text : List Char)
  deriving Repr, DecidableEq

inductive Fault where
  | fieldCount (n : Nat)
  | atom (field : Field) (fault : AtomFault)
  deriving Repr, DecidableEq

def AtomFault.code : AtomFault → IssueCode
  | .notNumber _ => .invalidValue
  | .outOfRange _ => .outOfRange
  | .backwards .. => .invalidRange
  | .badStep _ => .invalidStep

def AtomFault.text (f : Field) : AtomFault → String
  | .notNumber text => f.label ++ " '" ++ String.ofList text ++ "' is not a valid value"
  | .outOfRange n =>
    f.label ++ " value " ++ toString n ++ " is out of range (" ++ toString f.low ++ "-" ++
      toString f.high ++ ")"
  | .backwards start stop =>
    f.label ++ " range " ++ toString start ++ "-" ++ toString stop ++ " starts after it ends"
  | .badStep text =>
    f.label ++ " step '" ++ String.ofList text ++ "' must be a positive integer"

def Fault.issue : Fault → Issue
  | .fieldCount n =>
    { field := "expression"
      message := "Cron expression must have exactly 5 fields " ++
        "(minute hour day-of-month month day-of-week), got " ++ toString n
      code := .invalidFieldCount }
  | .atom field fault => { field := field.name, message := fault.text field, code := fault.code }

open Text

/-- The bound of the numbers that are understood. -/
def numberBound : Nat :=
  0x1_0000_0000

namespace Field

/-- Digits for a value of the field. -/
def number (f : Field) (s : List Char) : Except AtomFault Nat :=
  match (digits? 10 s).filter (· < numberBound) with
  | none => .error (.notNumber s)
  | some n => if f.Admits n then .ok n else .error (.outOfRange n)

/-- Two numbers with a minus between them, the first not above the second. -/
def ends (f : Field) (s : List Char) : Except AtomFault (Nat × Nat) :=
  match cutChar? '-' s with
  | none => .error (.notNumber s)
  | some (start, stop) => do
    let start ← f.number start
    let stop ← f.number stop
    if start ≤ stop then return (start, stop) else throw (.backwards start stop)

/-- The range in front of a step. A number stands for all values from it on. -/
def stepEnds (f : Field) (s : List Char) : Except AtomFault (Option (Nat × Nat)) :=
  if s = ['*'] then .ok none
  else if s.contains '-' then do return some (← f.ends s)
  else do return some (← f.number s, f.high)

end Field

/-- A positive number. -/
def stepWidth (s : List Char) : Except AtomFault Nat :=
  match (unsigned? 10 numberBound s).filter (0 < ·) with
  | none => .error (.badStep s)
  | some n => .ok n

namespace Atom

def parse (f : Field) (s : List Char) : Except AtomFault Atom :=
  if s = ['*'] then .ok .wildcard
  else
    match cutChar? '/' s with
    | some (base, width) => do
      let width ← stepWidth width
      return .step (← f.stepEnds base) width
    | none =>
      if s.contains '-' then do
        let (start, stop) ← f.ends s
        return .range start stop
      else do return .value (← f.number s)

end Atom

/-- The errors of an attempt. -/
def faults : Except (List ε) α → List ε
  | .ok _ => []
  | .error errors => errors

/-- All results, or else all errors. -/
def gather : List (Except ε α) → Except (List ε) (List α)
  | [] => .ok []
  | r :: rest =>
    match r, gather rest with
    | .ok a, .ok items => .ok (a :: items)
    | .ok _, .error errors => .error errors
    | .error e, later => .error (e :: faults later)

namespace Entry

/-- Sets with commas between them. -/
def parse (f : Field) (s : List Char) : Except (List Fault) Entry :=
  let atom (part : List Char) : Except Fault Atom := (Atom.parse f part).mapError (.atom f)
  if s.contains ',' then (gather ((splitWhen (· = ',') s).map atom)).map .list
  else ((atom s).map .one).mapError ([·])

end Entry

namespace Cron

/-- Five fields with white space between them. -/
def parse (s : List Char) : Except (List Fault) Cron :=
  match words s with
  | [minute, hour, dayOfMonth, month, dayOfWeek] =>
    let minute := Entry.parse .minute minute
    let hour := Entry.parse .hour hour
    let dayOfMonth := Entry.parse .dayOfMonth dayOfMonth
    let month := Entry.parse .month month
    let dayOfWeek := Entry.parse .dayOfWeek dayOfWeek
    match minute, hour, dayOfMonth, month, dayOfWeek with
    | .ok minute, .ok hour, .ok dayOfMonth, .ok month, .ok dayOfWeek =>
      .ok { minute, hour, dayOfMonth, month, dayOfWeek }
    | _, _, _, _, _ =>
      .error (faults minute ++ faults hour ++ faults dayOfMonth ++ faults month ++
        faults dayOfWeek)
  | fields => .error [.fieldCount fields.length]

/-- The issues of a text, none if it is a schedule. -/
def issues (s : List Char) : List Issue :=
  (faults (parse s)).map Fault.issue

/-- Whether the schedule of a text fires at what a clock shows; a text that is none never does. -/
def textFiresAt (s : List Char) (t : Time.Timestamp) : Bool :=
  match parse s with
  | .ok c => c.firesAt t
  | .error _ => false

end Cron

end Workflow.Schedule
