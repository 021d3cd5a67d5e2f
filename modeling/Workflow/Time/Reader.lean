import Workflow.Text.Blank
import Workflow.Text.Digits
import Workflow.Time.Moment

/-! Reading points in time. A reader takes the text from its own place on and leaves the rest. -/
namespace Workflow.Time

open Text

/-- Why a text is not read. -/
inductive Misread where
  | outOfRange
  | invalid
  | tooShort
  | tooLong
  deriving Repr, DecidableEq

def Misread.text : Misread → String
  | .outOfRange => "input is out of range"
  | .invalid => "input contains invalid characters"
  | .tooShort => "premature end of input"
  | .tooLong => "trailing input"

abbrev Reader (α : Type) :=
  StateT (List Char) (Except Misread) α

namespace Reader

/-- The value read from a whole text. -/
def whole (r : Reader α) (s : List Char) : Except Misread α := do
  match ← r.run s with
  | (a, []) => return a
  | _ => throw .tooLong

def whole? (r : Reader α) (s : List Char) : Option α :=
  (r.whole s).toOption

def isDigit (c : Char) : Bool :=
  '0' ≤ c && c ≤ '9'

/-- The bytes that a text takes. -/
def byteLength (s : List Char) : Nat :=
  s.foldl (fun n c => n + c.utf8Size) 0

/-- A number of at least `least` digits, of which at most `most` are read. -/
def digits (least most : Nat) : Reader Nat := fun s =>
  let run := (s.take most).takeWhile isDigit
  if run.length < least then
    .error (if byteLength (s.take least) < least then .tooShort else .invalid)
  else
    match digits? 10 run with
    | some n => .ok (n, s.drop run.length)
    | none => .error .invalid

/-- Two digits for a number from `low` to `high`. -/
def pair (low high : Nat) : Reader Nat := do
  let n ← digits 2 2
  if low ≤ n ∧ n ≤ high then return n else throw .outOfRange

/-- A number of digits that are all read. -/
def allDigits : Reader Nat := fun s =>
  match digits? 10 (s.takeWhile isDigit) with
  | some n => .ok (n, s.dropWhile isDigit)
  | none => .error .invalid

def oneOf (cs : List Char) : Reader Char
  | [] => .error .tooShort
  | d :: rest => if cs.contains d then .ok (d, rest) else .error .invalid

def char (c : Char) : Reader Unit := do
  let _ ← oneOf [c]

def skip (p : Char → Bool) : Reader Unit := fun s =>
  .ok ((), s.dropWhile p)

/-- The nanoseconds of a fraction, of which nine digits count; without a point there are none. -/
def fraction : Reader Nat := fun s =>
  match s with
  | '.' :: rest => do
    let (n, later) ← digits 1 9 rest
    return (n * Nat.pow 10 (9 - (rest.length - later.length)), later.dropWhile isDigit)
  | _ => .ok (0, s)

/-- A sign and four digits, the last two of which are less than sixty, with `separator` between
them. -/
def offset (separator : Reader Unit) : Reader Int := do
  let sign ← oneOf ['+', '-', '−']
  let hours ← digits 2 2
  separator
  let minutes ← pair 0 59
  let seconds : Int := hours * 3600 + minutes * 60
  return if sign = '+' then seconds else -seconds

/-- A Z, or an offset with a colon. -/
def zuluOrOffset : Reader Int := fun s =>
  match s with
  | 'Z' :: rest | 'z' :: rest => .ok (0, rest)
  | _ => offset (char ':') s

/-- Second 60 is the leap second behind second 59. -/
def timestamp? (year : Int) (month day hour minute second nanos : Nat) : Option Timestamp :=
  if second = 60 then
    Timestamp.ofFields? year month day hour minute 59 (nanosPerSecond + nanos)
  else Timestamp.ofFields? year month day hour minute second nanos

def timestamp (year : Int) (month day hour minute second nanos : Nat) :
    Except Misread Timestamp :=
  match timestamp? year month day hour minute second nanos with
  | some t => .ok t
  | none => .error .outOfRange

/-- An offset is less than a day. -/
def moment (t : Timestamp) (offset : Int) : Except Misread Moment :=
  if offset.natAbs < 86400 then
    match Moment.ofWall? t offset with
    | some m => .ok m
    | none => .error .outOfRange
  else .error .outOfRange

/-- The strict form: fields of fixed width, seconds, and an offset or a Z. There has to be such a
day before the time is read, and such a time before the offset is. -/
def strictFields : Reader (Timestamp × Int) := do
  let year ← digits 4 4
  char '-'
  let month ← digits 2 2
  char '-'
  let day ← digits 2 2
  if (Date.ofFields? year month day).isNone then throw .outOfRange
  let _ ← oneOf ['T', 't', ' ']
  let hour ← digits 2 2
  char ':'
  let minute ← digits 2 2
  char ':'
  let second ← digits 2 2
  let nanos ← fraction
  let t ← timestamp year month day hour minute second nanos
  return (t, ← zuluOrOffset)

/-- The bytes of the strict form in front of a fraction and an offset. -/
def strictLength : Nat :=
  19

/-- A number of one or two digits, with white space before it. -/
def field : Reader Nat := do
  skip isBlank
  digits 1 2

/-- A year of up to four digits, or of any number of digits behind a sign. -/
def year : Reader Int := fun s =>
  match s.dropWhile isBlank with
  | '-' :: rest => (allDigits rest).map fun (n, r) => (-(n : Int), r)
  | '+' :: rest => (allDigits rest).map fun (n, r) => ((n : Int), r)
  | rest => (digits 1 4 rest).map fun (n, r) => ((n : Int), r)

structure YearMonthDay where
  year : Int
  month : Nat
  day : Nat

def date : Reader YearMonthDay := do
  let year ← year
  char '-'
  let month ← field
  char '-'
  return { year, month, day := ← field }

def hourMinute : Reader (Nat × Nat) := do
  let hour ← field
  char ':'
  return (hour, ← field)

/-- A second and its nanoseconds behind a colon. -/
def secondPart : Reader (Nat × Nat) := do
  char ':'
  let second ← field
  return (second, ← fraction)

/-- A second without a fraction behind a colon. -/
def wholeSecond : Reader (Nat × Nat) := do
  char ':'
  return (← field, 0)

def noSecond : Reader (Nat × Nat) :=
  return (0, 0)

/-- A date and a time of day with `separator` between them. -/
def dateTime (separator : Reader Unit) (seconds : Reader (Nat × Nat)) : Reader Timestamp := do
  let d ← date
  separator
  let (hour, minute) ← hourMinute
  let (second, nanos) ← seconds
  timestamp d.year d.month d.day hour minute second nanos

/-- A date, a time of day and an offset. -/
def zoned (seconds : Reader (Nat × Nat)) : Reader Moment := do
  let t ← dateTime (char 'T') seconds
  skip isBlank
  let offset ← offset (skip fun c => c = ':' || isBlank c)
  moment t offset

/-- The start of a day. -/
def midnight : Reader Timestamp := do
  let d ← date
  timestamp d.year d.month d.day 0 0 0 0

/-- The forms without an offset, in the order in which they are tried. -/
def plainForms : List (Reader Timestamp) :=
  [dateTime (char 'T') secondPart, dateTime (char 'T') noSecond,
    dateTime (skip isBlank) secondPart, dateTime (skip isBlank) noSecond, midnight]

end Reader

/-- The moment of a text in the strict form. A text that is too short is not looked at, and the
offset is looked at when the text is known to end behind it. -/
def Moment.ofStrict (s : List Char) : Except Misread Moment := do
  if Reader.byteLength s < Reader.strictLength then throw .tooShort
  let (t, offset) ← Reader.strictFields.whole s
  Reader.moment t offset

def Moment.ofStrict? (s : List Char) : Option Moment :=
  (Moment.ofStrict s).toOption

/-- A text without a final Z. -/
def dropZulu (s : List Char) : List Char :=
  match s.reverse with
  | 'Z' :: rest | 'z' :: rest => rest.reverse
  | _ => s

/-- The moment of a text in any of the forms. Without an offset it is universal time. -/
def Moment.parse? (s : String) : Option Moment :=
  let t := trim s.toList
  (Moment.ofStrict? t).or <|
    ([Reader.zoned Reader.secondPart, Reader.zoned Reader.noSecond].findSome? (·.whole? t)).or <|
      (Reader.plainForms.findSome? (·.whole? (dropZulu t))).map Moment.ofUtc

end Workflow.Time
