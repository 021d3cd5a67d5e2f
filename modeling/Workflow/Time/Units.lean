import Workflow.Time.Moment
import Workflow.Number.Double

/-! Units of time: the stretch of a unit that a moment lies in, and moving moments by amounts. -/
namespace Workflow.Time

inductive TimeUnit where
  | year
  | quarter
  | month
  | week
  | day
  | hour
  | minute
  | second
  | millisecond
  deriving Repr, DecidableEq

namespace TimeUnit

/-- All units, the longest first. -/
def all : List TimeUnit :=
  [year, quarter, month, week, day, hour, minute, second, millisecond]

def name : TimeUnit → String
  | year => "year"
  | quarter => "quarter"
  | month => "month"
  | week => "week"
  | day => "day"
  | hour => "hour"
  | minute => "minute"
  | second => "second"
  | millisecond => "millisecond"

/-- The unit of a name in the singular or the plural. -/
def ofName? (s : String) : Option TimeUnit :=
  all.find? fun u => s = u.name || s = u.name ++ "s"

/-- The months of a unit that is counted in months. -/
def months? : TimeUnit → Option Nat
  | year => some 12
  | quarter => some 3
  | month => some 1
  | _ => none

/-- The milliseconds of a unit that is not counted in months. -/
def millis : TimeUnit → Nat
  | week => 604800000
  | day => 86400000
  | hour => 3600000
  | minute => 60000
  | second => 1000
  | _ => 1

end TimeUnit

namespace Moment

/-- The start on the wall clock of the unit that a wall time lies in. -/
def startOnWall (t : Timestamp) : TimeUnit → Timestamp
  | .year => .ofDate { t.date with month := 1, day := 1 } 0
  | .quarter => .ofDate { t.date with month := (t.date.month - 1) / 3 * 3 + 1, day := 1 } 0
  | .month => .ofDate { t.date with day := 1 } 0
  | .week =>
    { seconds := (t.date.toDays - t.date.weekday) * secondsPerDay, nanos := 0 }
  | .day => .ofDate t.date 0
  | .hour => .ofDate t.date (t.hour * 3600)
  | .minute => .ofDate t.date (t.hour * 3600 + t.minute * 60)
  | .second => .ofDate t.date t.secondOfDay
  | .millisecond => t

/-- The first moment of the unit that a moment lies in. -/
def startOf? (m : Moment) (u : TimeUnit) : Option Moment :=
  if u = .millisecond then some m else ofWall? (startOnWall m.wall u) m.offset

/-- The moment one unit later. -/
def next? (m : Moment) (u : TimeUnit) : Option Moment :=
  match u.months?, u with
  | some n, _ => m.addMonths? n
  | none, .week => m.addDays? 7
  | none, .day => m.addDays? 1
  | none, _ => m.addMillis? u.millis

/-- The last millisecond of the unit that a moment lies in. -/
def endOf? (m : Moment) (u : TimeUnit) : Option Moment :=
  if u = .millisecond then some m
  else do (← (← m.startOf? u).next? u).addMillis? (-1)

/-- The moment that lies an amount of milliseconds later, rounded to a whole number of them. -/
def addFloatMillis? (m : Moment) (amount : Float) : Option Moment := do
  m.addMillis? (← Number.nearest? amount)

/-- The moment that lies an amount of months later; a fraction of a month does not count. -/
def addFloatMonths? (m : Moment) (amount : Float) : Option Moment := do
  m.addMonths? (← Number.toInt? amount)

/-- The moment that lies an amount of a unit later. -/
def addAmount? (m : Moment) (u : TimeUnit) (amount : Float) : Option Moment :=
  match u.months? with
  | some n => m.addFloatMonths? (amount * Float.ofNat n)
  | none => m.addFloatMillis? (amount * Float.ofNat u.millis)

end Moment

/-- Why a moment cannot be moved: an amount is no finite number, or there is no such date. -/
inductive ShiftFault where
  | amount
  | range
  deriving Repr, DecidableEq

/-- The sum of the amounts of a unit. -/
def totalOf (u : TimeUnit) (amounts : List (TimeUnit × Float)) : Float :=
  amounts.foldl (fun total (v, amount) => if v = u then total + amount else total) 0.0

namespace Moment

/-- The moment that lies the total amount of a unit later. -/
def addTotal (m : Moment) (amounts : List (TimeUnit × Float)) (u : TimeUnit) :
    Except ShiftFault Moment :=
  let total := totalOf u amounts
  if total == 0.0 then .ok m
  else if !total.isFinite then .error .amount
  else
    match m.addAmount? u total with
    | some m => .ok m
    | none => .error .range

/-- The moment that lies some amounts later, which are added by units, the longest first. -/
def shift (m : Moment) (amounts : List (TimeUnit × Float)) : Except ShiftFault Moment :=
  TimeUnit.all.foldlM (fun m u => m.addTotal amounts u) m

end Moment

end Workflow.Time
