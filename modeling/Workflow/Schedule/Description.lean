import Workflow.Schedule.Parser
import Workflow.Time.Written

/-! Describing schedules in English. -/
namespace Workflow.Schedule

open Text Time

/-- Schedules with a phrase of their own. -/
def knownPhrases : List (String × String) :=
  [("* * * * *", "Every minute"),
    ("*/5 * * * *", "Every 5 minutes"),
    ("*/10 * * * *", "Every 10 minutes"),
    ("*/15 * * * *", "Every 15 minutes"),
    ("*/30 * * * *", "Every 30 minutes"),
    ("0 * * * *", "Every hour"),
    ("0 */2 * * *", "Every 2 hours"),
    ("0 */6 * * *", "Every 6 hours"),
    ("0 */12 * * *", "Every 12 hours"),
    ("0 0 * * *", "Every day at midnight"),
    ("0 12 * * *", "Every day at noon"),
    ("0 9 * * *", "Every day at 9:00 AM"),
    ("0 9 * * 1-5", "Every weekday at 9:00 AM"),
    ("0 0 * * 0", "Every Sunday at midnight"),
    ("0 0 * * 1", "Every Monday at midnight"),
    ("0 0 1 * *", "On the first day of every month at midnight"),
    ("0 0 1 1 *", "Every year on January 1st at midnight")]

def monthNames : List String :=
  ["Jan", "Feb", "Mar", "Apr", "May", "Jun", "Jul", "Aug", "Sep", "Oct", "Nov", "Dec"]

def weekdayNames : List String :=
  ["Sun", "Mon", "Tue", "Wed", "Thu", "Fri", "Sat"]

def hourLabel (hour : Nat) : String :=
  toString (hourOfTwelve hour) ++ " " ++ halfOfDay hour

def clockTime (hour minute : Nat) : String :=
  toString (hourOfTwelve hour) ++ ":" ++ padded 2 minute ++ " " ++ halfOfDay hour

def counted (n : Nat) (unit : String) : String :=
  if n = 1 then "1 " ++ unit else toString n ++ " " ++ unit ++ "s"

/-- What a value of the field is called. -/
def Field.valueName (f : Field) (n : Nat) : String :=
  match f with
  | .month => if n = 0 then "0" else monthNames.getD (n - 1) (toString n)
  | .dayOfWeek => weekdayNames.getD n (toString n)
  | .hour => hourLabel n
  | _ => toString n

/-- A set as it is written, with the names of its values. -/
def Atom.label (f : Field) : Atom → String
  | .wildcard => "*"
  | .value n => f.valueName n
  | .range start stop => f.valueName start ++ "-" ++ f.valueName stop
  | .step none width => "*/" ++ toString width
  | .step (some (start, stop)) width =>
    f.valueName start ++ "-" ++ f.valueName stop ++ "/" ++ toString width

def Entry.label (f : Field) (e : Entry) : String :=
  ", ".intercalate (e.atoms.map (·.label f))

def minutePhrase : Entry → String
  | .one .wildcard => "Every minute"
  | .one (.step none width) => "Every " ++ counted width "minute"
  | .one (.step (some (start, stop)) width) =>
    "Every " ++ counted width "minute" ++ " from minute " ++ toString start ++ " through " ++
      toString stop ++ " past the hour"
  | .one (.value 0) => "At the start of the hour"
  | .one (.value n) => "At " ++ counted n "minute" ++ " past the hour"
  | .one (.range start stop) =>
    "Every minute from " ++ toString start ++ " through " ++ toString stop ++ " past the hour"
  | .list items => "At minutes " ++ (Entry.list items).label .minute ++ " past the hour"

def hourPhrase? : Entry → Option String
  | .one .wildcard => none
  | .one (.step none width) => some ("every " ++ counted width "hour")
  | .one (.step (some (start, stop)) width) =>
    some ("every " ++ counted width "hour" ++ " from " ++ hourLabel start ++ " through " ++
      hourLabel stop)
  | .one (.range start stop) =>
    some ("between " ++ hourLabel start ++ " and " ++ hourLabel stop)
  | .one (.value n) => some ("during the " ++ hourLabel n ++ " hour")
  | .list items => some ("during " ++ (Entry.list items).label .hour)

def dayOfMonthPhrase? : Entry → Option String
  | .one .wildcard => none
  | .one (.value n) => some ("on day " ++ toString n ++ " of the month")
  | .one (.range start stop) =>
    some ("on days " ++ toString start ++ " through " ++ toString stop ++ " of the month")
  | .one (.step none width) => some ("every " ++ counted width "day")
  | .one (.step (some (start, stop)) width) =>
    some ("every " ++ counted width "day" ++ " from day " ++ toString start ++ " through " ++
      toString stop)
  | .list items => some ("on days " ++ (Entry.list items).label .dayOfMonth ++ " of the month")

def monthPhrase? : Entry → Option String
  | .one .wildcard => none
  | .one (.range start stop) =>
    some (Field.month.valueName start ++ " through " ++ Field.month.valueName stop)
  | .one (.step none width) => some ("every " ++ counted width "month")
  | .one (.step (some (start, stop)) width) =>
    some ("every " ++ counted width "month" ++ " from " ++ Field.month.valueName start ++
      " through " ++ Field.month.valueName stop)
  | e => some ("only in " ++ e.label .month)

def dayOfWeekPhrase? : Entry → Option String
  | .one .wildcard => none
  | .one (.range start stop) =>
    some (Field.dayOfWeek.valueName start ++ " through " ++ Field.dayOfWeek.valueName stop)
  | .one (.step none width) => some ("every " ++ counted width "day" ++ " of the week")
  | .one (.step (some (start, stop)) width) =>
    some ("every " ++ counted width "day" ++ " of the week from " ++
      Field.dayOfWeek.valueName start ++ " through " ++ Field.dayOfWeek.valueName stop)
  | e => some ("only on " ++ e.label .dayOfWeek)

def Atom.value? : Atom → Option Nat
  | .value n => some n
  | _ => none

/-- The hours of a field that gives nothing but single ones. -/
def Entry.values? (e : Entry) : Option (List Nat) :=
  e.atoms.mapM Atom.value?

/-- Times of day if there are few, otherwise the minutes and then the hours. -/
def timePhrase (minute hour : Entry) : String :=
  match minute, hour.values? with
  -- one time of day for each hour
  | .one (.value m), some hours => "At " ++ ", ".intercalate (hours.map (clockTime · m))
  | _, _ =>
    match hourPhrase? hour with
    | some hours => minutePhrase minute ++ ", " ++ hours
    | none => minutePhrase minute

/-- What the fields say, one after another. -/
def Cron.phrase (c : Cron) : String :=
  ", ".intercalate (timePhrase c.minute c.hour ::
    [dayOfMonthPhrase? c.dayOfMonth, monthPhrase? c.month, dayOfWeekPhrase? c.dayOfWeek].filterMap
      id)

def invalidText : String :=
  "Invalid cron expression"

/-- The description of a text that should be a schedule. -/
def describe (s : List Char) : String :=
  match knownPhrases.lookup (String.ofList ([' '].intercalate (words s))) with
  | some phrase => phrase
  | none =>
    match Cron.parse s with
    | .ok c => c.phrase
    | .error _ => invalidText

end Workflow.Schedule
