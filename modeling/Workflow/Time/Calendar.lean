/-! The Gregorian calendar, extended to all years, and its days counted from the first of January
1970. -/
namespace Workflow.Time

def isLeap (year : Int) : Bool :=
  year % 4 = 0 && (year % 100 ≠ 0 || year % 400 = 0)

def monthLength (leap : Bool) (month : Nat) : Nat :=
  if month = 2 then (if leap then 29 else 28)
  else if month = 4 ∨ month = 6 ∨ month = 9 ∨ month = 11 then 30
  else 31

/-- The days of a year before a month. -/
def daysBefore (leap : Bool) : (month : Nat) → Nat
  | 0 | 1 => 0
  | month + 2 => daysBefore leap (month + 1) + monthLength leap (month + 1)

structure Date where
  year : Int
  month : Nat
  day : Nat
  deriving Repr, DecidableEq

namespace Date

def isValid (d : Date) : Bool :=
  1 ≤ d.month && d.month ≤ 12 && 1 ≤ d.day && d.day ≤ monthLength (isLeap d.year) d.month

/-- The days from the first of January of year 1 to that of another year. -/
def daysBeforeYear (year : Int) : Int :=
  let y := year - 1
  365 * y + y / 4 - y / 100 + y / 400

/-- The days from the first of January of year 1 to that of 1970. -/
def epoch : Int :=
  719162

/-- How many days of the year have passed on the evening of the date. -/
def ordinal (d : Date) : Nat :=
  daysBefore (isLeap d.year) d.month + d.day

/-- The days from the first of January 1970 to the date. -/
def toDays (d : Date) : Int :=
  daysBeforeYear d.year + d.ordinal - 1 - epoch

/-- The month that day `n` of a year lies in, counted from 0, and its day there; `month` is the
first one to try, and `tries` bounds how many there are. -/
def ofOrdinal (leap : Bool) (n : Nat) (month : Nat) : (tries : Nat) → Nat × Nat
  | 0 => (month, n + 1)
  | tries + 1 =>
    if n < monthLength leap month then (month, n + 1)
    else ofOrdinal leap (n - monthLength leap month) (month + 1) tries

/-- The date that is `n` days behind the first of January 1970. Four centuries have 146097 days, the
first three of them 36524 each; four years of a century have 1461 days, the first three of them 365
each. -/
def ofDays (n : Int) : Date :=
  let days := n + epoch
  let rest := (days % 146097).toNat
  let century := min (rest / 36524) 3
  let rest := rest - century * 36524
  let quad := rest / 1461
  let rest := rest % 1461
  let last := min (rest / 365) 3
  let year : Int := 400 * (days / 146097) + (100 * century + 4 * quad + last : Nat) + 1
  let (month, day) := ofOrdinal (isLeap year) (rest - last * 365) 1 11
  { year, month, day }

/-- The day of the week, from Monday as 0. -/
def weekday (d : Date) : Nat :=
  ((d.toDays + 3) % 7).toNat

/-- The first and last year that have dates. -/
def firstYear : Int := -262143

def lastYear : Int := 262142

/-- A date of a year in range, if there is such a day. -/
def ofFields? (year : Int) (month day : Nat) : Option Date :=
  let d : Date := { year, month, day }
  if firstYear ≤ year ∧ year ≤ lastYear ∧ d.isValid then some d else none

/-- The date `n` months later; a day that the month does not have becomes its last one. -/
def addMonths (d : Date) (n : Int) : Date :=
  let months := d.year * 12 + d.month - 1 + n
  let year := months / 12
  let month := (months % 12).toNat + 1
  { year, month, day := min d.day (monthLength (isLeap year) month) }

end Date

/-- The days that have dates. -/
def firstDay : Int :=
  Date.toDays ⟨Date.firstYear, 1, 1⟩

def lastDay : Int :=
  Date.toDays ⟨Date.lastYear, 12, 31⟩

end Workflow.Time
