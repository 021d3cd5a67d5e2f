import Workflow.Schedule.Cron
import Workflow.Schedule.Settings
import Workflow.Time.Reader

/-! The cron schedule that settings stand for. -/
namespace Workflow.Schedule

open Text Time

/-- The expression of settings that give none. -/
def defaultExpression : String :=
  "0 * * * *"

/-- A part of a time of day, cut off at its greatest value; what is no number is zero. -/
def clockPart (greatest : Nat) (s : List Char) : Nat :=
  min ((unsigned? 10 0x1_0000_0000 (trim s)).getD 0) greatest

/-- The hour and minute of a text. -/
def timeOfDay (s : List Char) : Nat × Nat :=
  match cutChar? ':' (trim s) with
  | some (hour, minute) => (clockPart 23 hour, clockPart 59 minute)
  | none => (clockPart 23 (trim s), 0)

/-- A step of 0 or 1 is none. -/
def everyNth (n : Nat) : Entry :=
  if n ≤ 1 then .any else .one (.step none n)

namespace Settings

def clock (s : Settings) : Nat × Nat :=
  match s.time with
  | some text => timeOfDay text.toList
  | none => (0, 0)

/-- The schedule of simple mode. -/
def simpleCron (s : Settings) : Cron :=
  let (hour, minute) := s.clock
  let nth (greatest : Nat) : Entry := everyNth (min (s.intervalValue.getD 0) greatest)
  let always : Cron := ⟨.any, .any, .any, .any, .any⟩
  let hourly : Cron := { always with minute := .exactly minute }
  let daily : Cron := { hourly with hour := .exactly hour }
  match s.interval.getD .day with
  | .minute => always
  | .minutes => { always with minute := nth 59 }
  | .hour => hourly
  | .hours => { hourly with hour := nth 23 }
  | .day =>
    if s.weekdaysOnly.getD false then { daily with dayOfWeek := .one (.range 1 5) } else daily
  | .week => { daily with dayOfWeek := .exactly (min (s.weekday.getD 1) 6) }
  | .month => { daily with dayOfMonth := .exactly (min (max (s.dayOfMonth.getD 1) 1) 31) }

end Settings

/-- The schedule that repeats what a clock shows. Without a cadence it is bound to the day and
month. -/
def Cadence.cron (c : Cadence) (t : Timestamp) : Cron :=
  let here (f : Field) : Entry := .exactly (f.valueAt t)
  let hourly : Cron := ⟨here .minute, .any, .any, .any, .any⟩
  let daily : Cron := { hourly with hour := here .hour }
  let monthly : Cron := { daily with dayOfMonth := here .dayOfMonth }
  match c with
  | .never => { monthly with month := here .month }
  | .hourly => hourly
  | .daily => daily
  | .weekly => { daily with dayOfWeek := here .dayOfWeek }
  | .monthly => monthly

/-- The forms of what a clock shows, in the order in which they are tried. -/
def wallForms : List (Reader Timestamp) :=
  let blank := Reader.skip isBlank
  [Reader.dateTime (Reader.char 'T') Reader.secondPart,
    Reader.dateTime (Reader.char 'T') Reader.noSecond,
    Reader.dateTime blank Reader.wholeSecond,
    Reader.dateTime blank Reader.noSecond]

/-- The moment of a text. With an offset of its own it is shown in the zone, if there is one;
otherwise it is what clocks of the zone show. -/
def moment? (zone : Option Zone) (s : List Char) : Option Moment :=
  let t := trim s
  match Moment.ofStrict? t with
  -- an offset in the text says which moment is meant; the zone only shows it
  | some m =>
    match zone with
    | some z => some (z.convert m.utc)
    | none => some m
  | none => (wallForms.findSome? (·.whole? t)).map (zone.getD .utc).ofWall

namespace Settings

/-- The expression of a datetime that can be read. -/
def datetimeExpression? (s : Settings) (zones : ZoneDatabase := .known) : Option String := do
  let m ← moment? (s.zone? zones) (← s.datetime).toList
  return String.ofList ((s.cadence.getD .never).cron m.wall).text

/-- The expression that settings stand for. -/
def expression (s : Settings) (default : String) (zones : ZoneDatabase := .known) : String :=
  let given := s.cronExpression.getD default
  match s.effectiveMode with
  | .cron => given
  | .simple => String.ofList s.simpleCron.text
  | .datetime => (s.datetimeExpression? zones).getD given

/-- Settings whose expression is the one that they stand for. -/
def convert (s : Settings) (default : String) (zones : ZoneDatabase := .known) : Settings :=
  { s with cronExpression := some (s.expression default zones) }

end Settings

end Workflow.Schedule
