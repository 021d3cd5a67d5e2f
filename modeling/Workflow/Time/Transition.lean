import Workflow.Time.Calendar

/-! The offsets of a place from universal time, and when they changed. -/
namespace Workflow.Time

/-- An offset that held at first, and later ones with the second from which on they hold; seconds
are counted in universal time from 1970. -/
structure Transitions where
  first : Int
  changes : List (Int × Int)

namespace Transitions

/-- The offset that a list of changes leaves behind `offset` at second `t`. -/
def offsetFrom (offset t : Int) : List (Int × Int) → Int
  | [] => offset
  | (start, next) :: rest => if t < start then offset else offsetFrom next t rest

/-- The offset in force at second `t` of universal time. -/
def offsetAt (z : Transitions) (t : Int) : Int :=
  offsetFrom z.first t z.changes

/-- The offset of the earliest stretch during which clocks show second `l`, among that of `offset`,
which begins at `start?` if it has a beginning, and those of later changes. -/
def showingFrom? (start? : Option Int) (offset l : Int) : List (Int × Int) → Option Int
  | [] => if start?.all (· ≤ l - offset) then some offset else none
  | (start, next) :: rest =>
    if start?.all (· ≤ l - offset) && l - offset < start then some offset
    else showingFrom? (some start) next l rest

/-- The offset with which clocks show second `l` for the first time, if they ever do. -/
def showing? (z : Transitions) (l : Int) : Option Int :=
  showingFrom? none z.first l z.changes

end Transitions

/-- A database of the zones that have names. Its offsets are less than a day, and no name begins as
an offset does. -/
structure ZoneDatabase where
  table? : String → Option Transitions
  near {name : String} {table : Transitions} : table? name = some table →
    ∀ offset ∈ table.first :: table.changes.map (·.2), offset.natAbs < 86400
  unsigned {name : String} {table : Transitions} : table? name = some table →
    name.toList.head? ≠ some '+' ∧ name.toList.head? ≠ some '-'

/-- Changes at the given times, to two offsets in turns. -/
def inTurns (offset other : Int) : List Int → List (Int × Int)
  | [] => []
  | t :: rest => (t, offset) :: inTurns other offset rest

/-- A change that comes every year with a Sunday: the first one from a day of a month on. It happens
`second` seconds after that Sunday begins in universal time. -/
structure Yearly where
  month : Nat
  day : Nat
  second : Int
  offset : Int

namespace Yearly

def change (y : Yearly) (year : Int) : Int × Int :=
  let date : Date := { year, month := y.month, day := y.day }
  ((date.toDays + (6 - date.weekday : Int)) * 86400 + y.second, y.offset)

/-- The changes of the years from `first` to 2099. -/
def changes (yearly : List Yearly) (first : Nat) : List (Int × Int) :=
  (List.range (2100 - first)).flatMap fun i => yearly.map (·.change (first + i))

end Yearly

end Workflow.Time
