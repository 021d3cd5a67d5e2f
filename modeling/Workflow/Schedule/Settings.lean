import Workflow.Json.Decode
import Workflow.Time.Zone

/-! Settings of a trigger: a schedule in one of three modes, with the fields that each
mode reads. -/
namespace Workflow.Schedule

open Time

inductive Mode where
  | simple
  | datetime
  | cron
  deriving Repr, DecidableEq

/-- What is repeated in simple mode. -/
inductive Interval where
  | minute
  | minutes
  | hour
  | hours
  | day
  | week
  | month
  deriving Repr, DecidableEq

/-- How an instant is repeated in datetime mode. -/
inductive Cadence where
  | never
  | hourly
  | daily
  | weekly
  | monthly
  deriving Repr, DecidableEq

def Mode.word : Mode → String
  | .simple => "simple"
  | .datetime => "datetime"
  | .cron => "cron"

def Interval.word : Interval → String
  | .minute => "minute"
  | .minutes => "minutes"
  | .hour => "hour"
  | .hours => "hours"
  | .day => "day"
  | .week => "week"
  | .month => "month"

def Cadence.word : Cadence → String
  | .never => "none"
  | .hourly => "hourly"
  | .daily => "daily"
  | .weekly => "weekly"
  | .monthly => "monthly"

def Mode.all : List Mode :=
  [.simple, .datetime, .cron]

def Interval.all : List Interval :=
  [.minute, .minutes, .hour, .hours, .day, .week, .month]

def Cadence.all : List Cadence :=
  [.never, .hourly, .daily, .weekly, .monthly]

structure Settings where
  mode : Option Mode := none
  cronExpression : Option String := none
  interval : Option Interval := none
  intervalValue : Option Nat := none
  /-- Hours and minutes with a colon between them. -/
  time : Option String := none
  /-- From Sunday as 0. -/
  weekday : Option Nat := none
  dayOfMonth : Option Nat := none
  weekdaysOnly : Option Bool := none
  datetime : Option String := none
  cadence : Option Cadence := none
  timezone : Option String := none
  /-- Fields of other names. -/
  extra : Fields Json := []

namespace Settings

/-- The names of the fields that are understood. -/
def names : List String :=
  ["scheduleMode", "cronExpression", "interval", "intervalValue", "time", "weekday", "dayOfMonth",
    "weekdaysOnly", "datetime", "repeat", "timezone"]

/-- The mode in effect: settings without one are those of a cron schedule. -/
def effectiveMode (s : Settings) : Mode :=
  s.mode.getD .cron

/-- The zone in which the schedule is read, if one is given that exists. -/
def zone? (s : Settings) (zones : ZoneDatabase := .known) : Option Zone :=
  s.timezone.bind (Zone.parse? · zones)

/-- Settings from an object: null is as good as absent, but values of a wrong type are refused. -/
def ofJson? (v : Json) : Option Settings := do
  let entries ← v.asObject?
  let read {α} (name : String) (decode : Json → Option α) :=
    Json.optional decode (Fields.get? entries name)
  let word {α} (all : List α) (text : α → String) (v : Json) : Option α := do
    let w ← v.asWord?
    all.find? (text · = w)
  let size := Json.asNat? 0x1_0000_0000
  return {
    mode := ← read "scheduleMode" (word Mode.all Mode.word)
    cronExpression := ← read "cronExpression" Json.asString?
    interval := ← read "interval" (word Interval.all Interval.word)
    intervalValue := ← read "intervalValue" size
    time := ← read "time" Json.asString?
    weekday := ← read "weekday" size
    dayOfMonth := ← read "dayOfMonth" size
    weekdaysOnly := ← read "weekdaysOnly" Json.asBool?
    datetime := ← read "datetime" Json.asString?
    cadence := ← read "repeat" (word Cadence.all Cadence.word)
    timezone := ← read "timezone" Json.asString?
    extra := entries.filter fun (key, _) => !names.contains key }

/-- The fields that are there: those that are understood in the order of their names above, then the
others. -/
def entries (s : Settings) : List (String × Json) :=
  let known : List (Option Json) :=
    [s.mode.map fun m => .string m.word,
      s.cronExpression.map .string,
      s.interval.map fun i => .string i.word,
      s.intervalValue.map Json.ofNat,
      s.time.map .string,
      s.weekday.map Json.ofNat,
      s.dayOfMonth.map Json.ofNat,
      s.weekdaysOnly.map .bool,
      s.datetime.map .string,
      s.cadence.map fun c => .string c.word,
      s.timezone.map .string]
  ((names.zip known).filterMap fun (name, v) => v.map (name, ·)) ++ s.extra

def toJson (s : Settings) : Json :=
  .ofEntries s.entries

end Settings

end Workflow.Schedule
