import Workflow.Time.Written

/-! Points in time laid out by a pattern: runs of a letter stand for fields, text between single
quotes and all else stands for itself. -/
namespace Workflow.Time

open Text

def monthNames : List String :=
  ["January", "February", "March", "April", "May", "June", "July", "August", "September", "October",
    "November", "December"]

/-- The names of the days of the week, from Monday on. -/
def weekdayNames : List String :=
  ["Monday", "Tuesday", "Wednesday", "Thursday", "Friday", "Saturday", "Sunday"]

/-- The first three letters of a name. -/
def short (name : String) : String :=
  String.ofList (name.toList.take 3)

namespace Date

def monthName (d : Date) : String :=
  monthNames.getD (d.month - 1) ""

def weekdayName (d : Date) : String :=
  weekdayNames.getD d.weekday ""

def quarter (d : Date) : Nat :=
  (d.month - 1) / 3 + 1

end Date

/-- How an offset is written in a pattern. -/
inductive OffsetStyle where
  | short
  | colon
  | plain
  deriving Repr, DecidableEq

/-- The hours and whole minutes of an offset. -/
def offsetPattern (style : OffsetStyle) (offset : Int) : String :=
  let hours := offset.natAbs / 3600
  let minutes := offset.natAbs % 3600 / 60
  (if offset < 0 then "-" else "+") ++
    match style with
    | .short => if minutes = 0 then toString hours else toString hours ++ ":" ++ padded 2 minutes
    | .colon => padded 2 hours ++ ":" ++ padded 2 minutes
    | .plain => padded 2 hours ++ padded 2 minutes

/-- The name of a zone with a fixed offset. -/
def offsetName (offset : Int) : String :=
  if offset = 0 then "UTC" else "UTC" ++ offsetPattern .short offset

namespace Moment

/-- What `count` times the letter `c` stands for. -/
def fieldText (m : Moment) (c : Char) (count : Nat) : String :=
  let t := m.wall
  let d := t.date
  let number (n : Nat) := if count = 1 then toString n else padded 2 n
  match c with
  | 'y' =>
    if count = 2 then padded 2 (d.year % 100).toNat
    else if 4 ≤ count then padInt 4 d.year
    else toString d.year
  | 'M' | 'L' =>
    if count ≤ 2 then number d.month
    else if count = 3 then short d.monthName
    else d.monthName
  | 'd' => number d.day
  | 'E' | 'c' =>
    if count = 1 then toString (d.weekday + 1)
    else if count = 3 then short d.weekdayName
    else d.weekdayName
  | 'H' => number t.hour
  | 'h' => number (hourOfTwelve t.hour)
  | 'm' => number t.minute
  | 's' => number t.second
  | 'S' => if count = 1 then toString t.milli else padded 3 t.milli
  | 'a' => halfOfDay t.hour
  | 'Z' =>
    offsetPattern (if count = 1 then .short else if count = 2 then .colon else .plain) m.offset
  | 'z' => offsetName m.offset
  | 'q' => toString d.quarter
  | 'o' => if count = 1 then toString d.ordinal else padded 3 d.ordinal
  | 'X' => toString m.utc.seconds
  | 'x' => toString m.utc.toMillis
  | c => String.ofList (List.replicate count c)

/-- The text of a pattern behind `out`. Two quotes in a row are one quote. -/
def formatFrom (m : Moment) (out : String) (s : List Char) : String :=
  match s with
  | [] => out
  | '\'' :: '\'' :: rest => formatFrom m (out.push '\'') rest
  | '\'' :: rest =>
    formatFrom m (out ++ String.ofList (rest.takeWhile (· != '\'')))
      ((rest.dropWhile (· != '\'')).drop 1)
  | c :: rest =>
    if c.isAlpha then
      formatFrom m (out ++ fieldText m c (1 + (rest.takeWhile (· = c)).length))
        (rest.dropWhile (· = c))
    else formatFrom m (out.push c) rest
termination_by s.length
decreasing_by
  · simp only [List.length_cons]; omega
  · have := (List.dropWhile_sublist (l := rest) (· != '\'')).length_le
    simp only [List.length_drop, List.length_cons]
    omega
  · have := (List.dropWhile_sublist (l := rest) (· = c)).length_le
    simp only [List.length_cons]
    omega
  · simp

def format (m : Moment) (pattern : String) : String :=
  formatFrom m "" pattern.toList

end Moment

end Workflow.Time
