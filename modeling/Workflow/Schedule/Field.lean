import Workflow.Time.Moment

/-! The five fields of a cron schedule. -/
namespace Workflow.Schedule

inductive Field where
  | minute
  | hour
  | dayOfMonth
  | month
  | dayOfWeek
  deriving Repr, DecidableEq

namespace Field

def all : List Field :=
  [.minute, .hour, .dayOfMonth, .month, .dayOfWeek]

/-- The name of a field in reports. -/
def name : Field → String
  | .minute => "minute"
  | .hour => "hour"
  | .dayOfMonth => "dayOfMonth"
  | .month => "month"
  | .dayOfWeek => "dayOfWeek"

/-- The name of a field in sentences. -/
def label : Field → String
  | .minute => "Minute"
  | .hour => "Hour"
  | .dayOfMonth => "Day of month"
  | .month => "Month"
  | .dayOfWeek => "Day of week"

/-- The least value. -/
def low : Field → Nat
  | .dayOfMonth | .month => 1
  | _ => 0

/-- The greatest value. -/
def high : Field → Nat
  | .minute => 59
  | .hour => 23
  | .dayOfMonth => 31
  | .month => 12
  | .dayOfWeek => 6

def Admits (f : Field) (n : Nat) : Prop :=
  f.low ≤ n ∧ n ≤ f.high

instance (f : Field) (n : Nat) : Decidable (f.Admits n) :=
  inferInstanceAs (Decidable (_ ∧ _))

/-- The values of a field, in order. -/
def values (f : Field) : List Nat :=
  List.range' f.low (f.high + 1 - f.low)

/-- The value of a field in what a clock shows. Weeks start on Sunday. -/
def valueAt (f : Field) (t : Time.Timestamp) : Nat :=
  match f with
  | .minute => t.minute
  | .hour => t.hour
  | .dayOfMonth => t.date.day
  | .month => t.date.month
  | .dayOfWeek => (t.date.weekday + 1) % 7

end Field

end Workflow.Schedule
