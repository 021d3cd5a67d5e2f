import Workflow.Text.Search
import Workflow.Time.NamedZones
import Workflow.Time.Written
import Workflow.Text.Blank

/-! Time zones: universal time, a fixed offset, or a named place. -/
namespace Workflow.Time

open Text

inductive Zone where
  | utc
  | fixed (offset : Int)
  | named (name : String) (table : Transitions)

namespace Zone

/-- The offset in force at second `t` of universal time. -/
def offsetAt (z : Zone) (t : Int) : Int :=
  match z with
  | .utc => 0
  | .fixed offset => offset
  | .named _ table => table.offsetAt t

/-- What clocks of the zone show at `t`, a timestamp of universal time. -/
def convert (z : Zone) (t : Timestamp) : Moment :=
  { utc := t, offset := z.offsetAt t.seconds }

/-- The offset at which clocks show second `l`. If they do twice it is the earlier one; if they
never do it is the one in force when `l` is taken as universal time. -/
def wallOffset (z : Zone) (l : Int) : Int :=
  match z with
  | .named _ table => (table.showing? l).getD (table.offsetAt l)
  | _ => z.offsetAt l

/-- The moment at which clocks of the zone show `l`. If it has no date, at the ends of the calendar,
`l` is taken as universal time. -/
def ofWall (z : Zone) (l : Timestamp) : Moment :=
  (Moment.ofWall? l (z.wallOffset l.seconds)).getD (.ofUtc l)

/-- Clocks of the zone show what they are said to show, also if they never do. -/
theorem wall_ofWall (z : Zone) (l : Timestamp) : (z.ofWall l).wall = l := by
  unfold ofWall Moment.ofWall? Moment.inRange?
  split
  · exact Moment.wall_ofWall l _
  · show { l with seconds := l.seconds + 0 } = l
    rw [Int.add_zero]

/-- A fixed offset, with seconds if it has any. -/
def fixedText (offset : Int) : String :=
  let n := offset.natAbs
  (if offset < 0 then "-" else "+") ++ padded 2 (n / 3600) ++ ":" ++ padded 2 (n / 60 % 60) ++
    if n % 60 = 0 then "" else ":" ++ padded 2 (n % 60)

def name : Zone → String
  | .utc => "UTC"
  | .fixed offset => fixedText offset
  | .named name _ => name

inductive Kind where
  | utc
  | fixed
  | named
  deriving Repr, DecidableEq

def kind : Zone → Kind
  | .utc => .utc
  | .fixed _ => .fixed
  | .named .. => .named

/-- How many values a word has. Sums of words wrap around. -/
def wordCount : Nat :=
  0x1_0000_0000

/-- A whole number that fits a word with a sign. -/
def word? (s : List Char) : Option Int :=
  signed? 10 (wordCount / 2) s

/-- The hours and minutes of an offset behind its sign: apart with a colon between them, four
digits, or up to two for hours alone. Each may have a sign of its own. -/
def hoursMinutes? (s : List Char) : Option (Int × Int) :=
  match cutChar? ':' s with
  | some (hours, minutes) => do return (← word? hours, ← word? minutes)
  | none =>
    if s.length = 4 then do return (← word? (s.take 2), ← word? (s.drop 2))
    else if s.length ≤ 2 then do return (← word? s, 0)
    else none

/-- An offset of less than a day, reckoned in words of seconds. -/
def fixed? (s : List Char) : Option Zone := do
  let (sign, body) ← match s with
    | '+' :: body => some ((1 : Int), body)
    | '-' :: body => some ((-1 : Int), body)
    | _ => none
  let (hours, minutes) ← hoursMinutes? body
  -- the sign of a part of its own is not lost: `+-1:30` is half an hour behind universal time
  let offset := (sign * (hours * 3600 + minutes * 60)).bmod wordCount
  if hours ≤ 23 ∧ minutes ≤ 59 ∧ offset.natAbs < 86400 then return .fixed offset else none

/-- The zone that a text names, among those of a database. -/
def parse? (s : String) (zones : ZoneDatabase := .known) : Option Zone :=
  let t := trim s.toList
  let name := String.ofList t
  if t.map Char.toLower = "utc".toList ∨ name = "Z" then some .utc
  else
    match zones.table? name with
    | some table => some (.named name table)
    | none => fixed? t

/-- What is wrong with a text that names no zone. -/
def unknownText (s : String) : String :=
  "Invalid timezone '" ++ s ++
    "'. Use IANA name (e.g. 'Europe/Berlin') or UTC offset (e.g. '+02:00')"

end Zone

end Workflow.Time
