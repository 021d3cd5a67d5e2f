import Workflow.Text.Digits
import Workflow.Time.Moment

/-! How points in time are written. -/
namespace Workflow.Time

open Text

/-- A number with at least `width` places, a sign among them. -/
def padInt (width : Nat) (n : Int) : String :=
  if n < 0 then "-" ++ padded (width - 1) n.natAbs else padded width n.natAbs

/-- Years beyond four digits, and those before year 0, have a sign. -/
def yearText (year : Int) : String :=
  if 0 ≤ year ∧ year ≤ 9999 then padInt 4 year
  else if year < 0 then padInt 5 year
  else "+" ++ padInt 4 year

/-- An hour on a clock of twelve hours. -/
def hourOfTwelve (hour : Nat) : Nat :=
  if hour % 12 = 0 then 12 else hour % 12

def halfOfDay (hour : Nat) : String :=
  if hour < 12 then "AM" else "PM"

def dateText (d : Date) : String :=
  yearText d.year ++ "-" ++ padded 2 d.month ++ "-" ++ padded 2 d.day

/-- How the fraction of a second is written: as milliseconds, or with three, six or nine digits as
needed, or not at all if there is none. -/
inductive FractionStyle where
  | millis
  | shortest
  deriving Repr, DecidableEq

def fractionText (style : FractionStyle) (nanos : Nat) : String :=
  match style with
  | .millis => "." ++ padded 3 (nanos / 1_000_000)
  | .shortest =>
    if nanos = 0 then ""
    else if nanos % 1_000_000 = 0 then "." ++ padded 3 (nanos / 1_000_000)
    else if nanos % 1000 = 0 then "." ++ padded 6 (nanos / 1000)
    else "." ++ padded 9 nanos

/-- Hours and minutes; seconds are rounded to minutes. -/
def offsetText (offset : Int) : String :=
  let minutes := (offset.natAbs + 30) / 60
  (if offset < 0 then "-" else "+") ++ padded 2 (minutes / 60) ++ ":" ++ padded 2 (minutes % 60)

/-- Date and time of day; a leap second is second 60. -/
def timestampText (style : FractionStyle) (t : Timestamp) : String :=
  let leap := t.nanos / nanosPerSecond
  dateText t.date ++ "T" ++ padded 2 t.hour ++ ":" ++ padded 2 t.minute ++ ":" ++
    padded 2 (t.second + leap) ++ fractionText style (t.nanos % nanosPerSecond)

namespace Moment

/-- Milliseconds, and a Z where the offset is zero. -/
def isoText (m : Moment) : String :=
  timestampText .millis m.wall ++ if m.offset = 0 then "Z" else offsetText m.offset

/-- The shortest fraction, and always a numeric offset. -/
def offsetIsoText (m : Moment) : String :=
  timestampText .shortest m.wall ++ offsetText m.offset

end Moment

/-- A timestamp of universal time. -/
def Timestamp.isoText (t : Timestamp) : String :=
  (Moment.ofUtc t).isoText

end Workflow.Time
