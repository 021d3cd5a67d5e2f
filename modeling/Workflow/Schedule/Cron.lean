import Workflow.Json.Basic
import Workflow.Schedule.Field
import Workflow.Text.Digits

/-! Cron schedules: for each field, which of its values a minute may have, and how they are written. -/
namespace Workflow.Schedule

/-- A set of values of a field: all, those that are a step apart (counted from zero, or within a
range from its start), a range with both ends, or one value. -/
inductive Atom where
  | wildcard
  | step (ends : Option (Nat × Nat)) (width : Nat)
  | range (start stop : Nat)
  | value (n : Nat)
  deriving Repr, DecidableEq

/-- What is given for a field: one set, or the union of several. -/
inductive Entry where
  | one (atom : Atom)
  | list (items : List Atom)
  deriving Repr, DecidableEq

structure Cron where
  minute : Entry
  hour : Entry
  dayOfMonth : Entry
  month : Entry
  dayOfWeek : Entry
  deriving Repr, DecidableEq

namespace Atom

def admits (a : Atom) (n : Nat) : Bool :=
  match a with
  | .wildcard => true
  | .step none width => n % width = 0
  | .step (some (start, stop)) width => start ≤ n && n ≤ stop && (n - start) % width = 0
  | .range start stop => start ≤ n && n ≤ stop
  | .value m => n = m

/-- Numbers are in the domain of the field, ranges are not empty and steps are positive. -/
def WellFormed (f : Field) : Atom → Prop
  | .wildcard => True
  | .step none width => 0 < width
  | .step (some (start, stop)) width => f.Admits start ∧ f.Admits stop ∧ start ≤ stop ∧ 0 < width
  | .range start stop => f.Admits start ∧ f.Admits stop ∧ start ≤ stop
  | .value n => f.Admits n

def toJson : Atom → Json
  | .wildcard => .ofEntries [("type", .string "wildcard")]
  | .step ends width =>
    .ofEntries [("type", .string "step"), ("step", .ofNat width),
      ("range", match ends with
        | none => .null
        | some (start, stop) => .array [.ofNat start, .ofNat stop])]
  | .range start stop =>
    .ofEntries [("type", .string "range"), ("start", .ofNat start), ("end", .ofNat stop)]
  | .value n => .ofEntries [("type", .string "value"), ("value", .ofNat n)]

end Atom

namespace Entry

def atoms : Entry → List Atom
  | .one a => [a]
  | .list items => items

def admits (e : Entry) (n : Nat) : Bool :=
  e.atoms.any (·.admits n)

/-- A list has at least two members. -/
def WellFormed (f : Field) (e : Entry) : Prop :=
  (∀ a ∈ e.atoms, a.WellFormed f) ∧ ∀ items, e = .list items → 2 ≤ items.length

def any : Entry :=
  .one .wildcard

def exactly (n : Nat) : Entry :=
  .one (.value n)

def toJson : Entry → Json
  | .one a => a.toJson
  | .list items =>
    .ofEntries [("type", .string "list"), ("items", .array (items.map Atom.toJson))]

end Entry

namespace Cron

def entry (c : Cron) : Field → Entry
  | .minute => c.minute
  | .hour => c.hour
  | .dayOfMonth => c.dayOfMonth
  | .month => c.month
  | .dayOfWeek => c.dayOfWeek

def WellFormed (c : Cron) : Prop :=
  ∀ f : Field, (c.entry f).WellFormed f

/-- Whether the schedule fires at what a clock shows. -/
def firesAt (c : Cron) (t : Time.Timestamp) : Bool :=
  Field.all.all fun f => (c.entry f).admits (f.valueAt t)

/-- Whether some value of a field is admitted. -/
def hasValue (c : Cron) (f : Field) : Bool :=
  f.values.any (c.entry f).admits

/-- Whether some month has, in some year, a day that is admitted. -/
def hasDate (c : Cron) : Bool :=
  Field.month.values.any fun m =>
    c.month.admits m && (List.range' 1 (Time.monthLength true m)).any c.dayOfMonth.admits

/-- Whether the schedule ever fires. -/
def canFire (c : Cron) : Bool :=
  c.hasDate && c.hasValue .minute && c.hasValue .hour && c.hasValue .dayOfWeek

def toJson (c : Cron) : Json :=
  .ofEntries (Field.all.map fun f => (f.name, (c.entry f).toJson))

end Cron

def decimal (n : Nat) : List Char :=
  Text.ofNat 10 n

def rangeText (start stop : Nat) : List Char :=
  decimal start ++ '-' :: decimal stop

namespace Atom

def text : Atom → List Char
  | .wildcard => ['*']
  | .step none width => '*' :: '/' :: decimal width
  | .step (some (start, stop)) width => rangeText start stop ++ '/' :: decimal width
  | .range start stop => rangeText start stop
  | .value n => decimal n

end Atom

namespace Entry

def text (e : Entry) : List Char :=
  [','].intercalate (e.atoms.map Atom.text)

end Entry

namespace Cron

/-- The fields, each behind one blank but the first. -/
def text (c : Cron) : List Char :=
  [' '].intercalate (Field.all.map fun f => (c.entry f).text)

end Cron

end Workflow.Schedule
