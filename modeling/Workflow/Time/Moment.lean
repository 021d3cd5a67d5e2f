import Workflow.Number.Double
import Workflow.Time.Calendar

/-! Points in time: what a clock shows, and a clock together with its offset from universal time. -/
namespace Workflow.Time

def secondsPerDay : Int :=
  86400

def nanosPerSecond : Nat :=
  1_000_000_000

/-- What a clock shows: the seconds since the start of 1970 and the nanoseconds behind them. A leap
second has `10 ^ 9` nanoseconds or more behind the second before it. -/
structure Timestamp where
  seconds : Int
  nanos : Nat
  deriving Repr, DecidableEq

namespace Timestamp

def date (t : Timestamp) : Date :=
  Date.ofDays (t.seconds / secondsPerDay)

def secondOfDay (t : Timestamp) : Nat :=
  (t.seconds % secondsPerDay).toNat

def hour (t : Timestamp) : Nat :=
  t.secondOfDay / 3600

def minute (t : Timestamp) : Nat :=
  t.secondOfDay / 60 % 60

def second (t : Timestamp) : Nat :=
  t.secondOfDay % 60

/-- The whole milliseconds behind the second. -/
def milli (t : Timestamp) : Nat :=
  t.nanos / 1_000_000

/-- The whole milliseconds since the start of 1970. -/
def toMillis (t : Timestamp) : Int :=
  t.seconds * 1000 + t.milli

def ofMillis (n : Int) : Timestamp :=
  { seconds := n / 1000, nanos := (n % 1000).toNat * 1_000_000 }

/-- Whether the day is one of those that have dates. -/
def inRange (t : Timestamp) : Bool :=
  firstDay * secondsPerDay ≤ t.seconds && t.seconds < (lastDay + 1) * secondsPerDay

def inRange? (t : Timestamp) : Option Timestamp :=
  if t.inRange then some t else none

def ofMillis? (n : Int) : Option Timestamp :=
  (ofMillis n).inRange?

/-- The start of a second of a day. -/
def ofDate (d : Date) (second : Nat) : Timestamp :=
  { seconds := d.toDays * secondsPerDay + second, nanos := 0 }

/-- A date and a time of day, if there is such a date and time; nanoseconds of a leap second can
only stand behind the last second of a minute. -/
def ofFields? (year : Int) (month day hour minute second nanos : Nat) : Option Timestamp := do
  let d ← Date.ofFields? year month day
  if hour < 24 ∧ minute < 60 ∧ second < 60 ∧ nanos < 2 * nanosPerSecond ∧
      (nanos < nanosPerSecond ∨ second = 59) then
    return { ofDate d (hour * 3600 + minute * 60 + second) with nanos }
  else none

/-- Nanoseconds since the start of 1970; a leap second counts with its own ones. -/
def toNanos (t : Timestamp) : Int :=
  t.seconds * nanosPerSecond + t.nanos

def ofNanos (n : Int) : Timestamp :=
  { seconds := n / nanosPerSecond, nanos := (n % nanosPerSecond).toNat }

/-- The timestamp `n` nanoseconds later. Inside a leap second time moves within it, up to its ends:
beyond the end the leap second counts as the one before, from its start backwards as the one
behind. -/
def addNanos (t : Timestamp) (n : Int) : Timestamp :=
  if t.nanos < nanosPerSecond then ofNanos (t.toNanos + n)
  else
    let whole := n.tdiv nanosPerSecond
    let part := n.tmod nanosPerSecond
    if 0 < whole ∨ (0 < part ∧ 2 * nanosPerSecond ≤ t.nanos + part) then
      ofNanos (t.toNanos - nanosPerSecond + n)
    else if whole < 0 then ofNanos (t.toNanos + n)
    else { t with nanos := (t.nanos + part).toNat }

def addMillis (t : Timestamp) (n : Int) : Timestamp :=
  t.addNanos (n * 1_000_000)

def addSeconds (t : Timestamp) (n : Int) : Timestamp :=
  t.addNanos (n * nanosPerSecond)

/-- The same time of day on another date. -/
def withDate (t : Timestamp) (d : Date) : Timestamp :=
  { t with seconds := d.toDays * secondsPerDay + t.secondOfDay }

end Timestamp

/-- A point in time, given by universal time, and the offset in seconds of the clock that
shows it. -/
structure Moment where
  utc : Timestamp
  offset : Int
  deriving Repr, DecidableEq

namespace Moment

/-- What the clock shows. -/
def wall (m : Moment) : Timestamp :=
  { m.utc with seconds := m.utc.seconds + m.offset }

def ofUtc (t : Timestamp) : Moment :=
  { utc := t, offset := 0 }

/-- The moment at which a clock with the given offset shows `t`. -/
def ofWall (t : Timestamp) (offset : Int) : Moment :=
  { utc := { t with seconds := t.seconds - offset }, offset }

theorem wall_ofWall (t : Timestamp) (offset : Int) : (ofWall t offset).wall = t := by
  unfold wall ofWall
  dsimp only
  rw [Int.sub_add_cancel]

/-- A moment whose universal time has a date. -/
def inRange? (m : Moment) : Option Moment :=
  if m.utc.inRange then some m else none

def ofWall? (t : Timestamp) (offset : Int) : Option Moment :=
  (ofWall t offset).inRange?

def addMillis? (m : Moment) (n : Int) : Option Moment :=
  { m with utc := m.utc.addMillis n }.inRange?

/-- The moment whose wall clock shows the same time of day `n` months later. -/
def addMonths? (m : Moment) (n : Int) : Option Moment :=
  let date := m.wall.date.addMonths n
  if Date.firstYear ≤ date.year ∧ date.year ≤ Date.lastYear then
    ofWall? (m.wall.withDate date) m.offset
  else none

/-- The moment whose wall clock shows the same time of day `n` days later. -/
def addDays? (m : Moment) (n : Int) : Option Moment :=
  ofWall? { m.wall with seconds := m.wall.seconds + n * secondsPerDay } m.offset

end Moment

end Workflow.Time
