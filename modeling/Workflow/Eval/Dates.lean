import Workflow.Eval.Member
import Workflow.Time.Reader
import Workflow.Time.Zone

/-! Points in time as values. -/
namespace Workflow.Eval

open Time

/-- The whole number at a position; `default` if the argument is missing. -/
def part? (args : List Value) (i : Nat) (default : Int) : Option Int :=
  match args[i]? with
  | some v => Number.toInt? v.toNumber
  | none => some default

/-- A part that has to be a count. -/
def count? (args : List Value) (i : Nat) (default : Int) : Option Nat := do
  let n ← part? args i default
  if 0 ≤ n then some n.toNat else none

/-- The timestamp with a year, a month counted from `firstMonth`, and optionally a day, an hour, a
minute, a second and milliseconds. -/
def ofParts? (args : List Value) (firstMonth : Nat) : Option Timestamp := do
  let year ← Number.toInt? (Value.arg args 0).toNumber
  let month ← count? args 1 firstMonth
  let day ← count? args 2 1
  let hour ← count? args 3 0
  let minute ← count? args 4 0
  let second ← count? args 5 0
  let milli ← count? args 6 0
  Timestamp.ofFields? year (month + 1 - firstMonth) day hour minute second (milli * 1_000_000)

/-- The timestamp of a number of milliseconds; a fraction does not count. -/
def ofFloatMillis? (x : Float) : Option Timestamp := do
  Timestamp.ofMillis? (← Number.toInt? x)

/-- The date that arguments describe: now, a number of milliseconds, a text, a point in time, or
parts. -/
def constructDate? (now : Timestamp) (args : List Value) : Option Timestamp :=
  match args with
  | [] => some now
  | [.number x] => ofFloatMillis? x
  | [.string s] => (Moment.parse? s).map (·.utc)
  | [.date t] => some t
  | [.moment m] => some m.utc
  | [_] => none
  | _ => ofParts? args 0

/-- The amounts of a duration by units. -/
def amounts (entries : List (String × Value)) (sign : Float) : EvalM (List (TimeUnit × Float)) :=
  entries.mapM fun (key, v) => do
    return (← orOutOfRange .unit (TimeUnit.ofName? key), v.toNumber * sign)

/-- The moment that lies a duration later: milliseconds, or amounts by units. -/
def shift (m : Moment) (duration : Value) (sign : Float) : EvalM Value := do
  match duration with
  | .number x => return .moment (← orOutOfRange .moment (m.addFloatMillis? (x * sign)))
  | .object _ entries =>
    match m.shift (← amounts entries sign) with
    | .ok m => return .moment m
    | .error .amount => outOfRange .duration
    | .error .range => outOfRange .moment
  | _ => outOfRange .duration

def dateMethod (t : Timestamp) (m : DateMethod) : Value :=
  match m with
  | .time => .number (Number.ofInt t.toMillis)
  | .year => .number (Number.ofInt t.date.year)
  | .month => .ofNat (t.date.month - 1)
  | .day => .ofNat t.date.day
  | .weekday => .ofNat ((t.date.weekday + 1) % 7)
  | .hours => .ofNat t.hour
  | .minutes => .ofNat t.minute
  | .seconds => .ofNat t.second
  | .millis => .ofNat t.milli
  | .offset => .number 0.0
  | .iso => .string t.isoText

/-- What follows the T of a point in time. -/
def timeText (s : String) : String :=
  match Text.cutChar? 'T' s.toList with
  | some (_, time) => String.ofList time
  | none => ""

/-- The unit that the first argument names. -/
def readUnit (args : List Value) : EvalM TimeUnit :=
  orOutOfRange .unit (TimeUnit.ofName? (Value.arg args 0).display)

/-- The zone of a name, among those of the setting. -/
def readZone (name : String) : EvalM Zone := do
  orOutOfRange .zone (Zone.parse? name (← read).zones)

def momentMethod (m : Moment) (method : MomentMethod) (args : List Value) : EvalM Value := do
  let first := Value.arg args 0
  match method with
  | .plus => shift m first 1.0
  | .minus => shift m first (-1.0)
  | .toFormat => return .string (m.format first.display)
  | .toISODate => return .string (dateText m.wall.date)
  | .toISOTime => return .string (timeText m.isoText)
  | .toMillis => return .number (Number.ofInt m.utc.toMillis)
  | .toSeconds => return .number (Number.ofInt m.utc.toMillis / 1000.0)
  | .toUnixInteger => return .number (Number.ofInt m.utc.seconds)
  | .startOf => return .moment (← orOutOfRange .unit (m.startOf? (← readUnit args)))
  | .endOf => return .moment (← orOutOfRange .unit (m.endOf? (← readUnit args)))
  | .setZone => return .moment ((← readZone first.display).convert m.utc)
  | .toUTC => return .moment (.ofUtc m.utc)
  | .toJSDate => return .date m.utc
  | .toISO => return .string m.isoText

end Workflow.Eval
