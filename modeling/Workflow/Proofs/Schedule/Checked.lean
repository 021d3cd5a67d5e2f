import Workflow.Proofs.Schedule.CanFire
import Workflow.Proofs.Schedule.RoundTrip

/-! Schedules are matched with remainders, differences and a table of months, none of which exists
for all numbers. Here they are taken as operations that can fail: of what is read from a text, and
at every value, none of them does. -/
namespace Workflow.Schedule

/-- There is no remainder by zero. -/
def remainder? (n width : Nat) : Option Nat :=
  if width = 0 then none else some (n % width)

/-- No difference is negative. -/
def difference? (n m : Nat) : Option Nat :=
  if m ≤ n then some (n - m) else none

/-- The most days that the months ever have, from January on. -/
def longestMonths : List Nat :=
  [31, 29, 31, 30, 31, 30, 31, 31, 30, 31, 30, 31]

def longestMonth? (month : Nat) : Option Nat := do
  longestMonths[← difference? month 1]?

namespace Atom

/-- Whether a value is admitted, if it can be told. -/
def admits? (a : Atom) (n : Nat) : Option Bool :=
  match a with
  | .wildcard => some true
  | .step none width => do return (← remainder? n width) = 0
  | .step (some (start, stop)) width =>
    if start ≤ n ∧ n ≤ stop then do return (← remainder? (← difference? n start) width) = 0
    else some false
  | .range start stop => some (start ≤ n && n ≤ stop)
  | .value m => some (n = m)

end Atom

/-- The atoms are asked up to the first that admits the value. -/
def Entry.admits? (e : Entry) (n : Nat) : Option Bool :=
  e.atoms.anyM (·.admits? n)

namespace Cron

def firesAt? (c : Cron) (t : Time.Timestamp) : Option Bool :=
  Field.all.allM fun f => (c.entry f).admits? (f.valueAt t)

def hasValue? (c : Cron) (f : Field) : Option Bool :=
  f.values.anyM (c.entry f).admits?

/-- The length of a month is only looked up if the month is admitted. -/
def hasDate? (c : Cron) : Option Bool :=
  Field.month.values.anyM fun m => do
    if ← c.month.admits? m then
      (List.range' 1 (← longestMonth? m)).anyM c.dayOfMonth.admits?
    else return false

def canFire? (c : Cron) : Option Bool :=
  [c.hasDate?, c.hasValue? .minute, c.hasValue? .hour, c.hasValue? .dayOfWeek].allM id

end Cron

theorem remainder?_zero (n : Nat) : remainder? n 0 = none :=
  rfl

theorem remainder?_of_pos {width : Nat} (h : 0 < width) (n : Nat) :
    remainder? n width = some (n % width) :=
  if_neg (Nat.pos_iff_ne_zero.1 h)

theorem difference?_of_le {n m : Nat} (h : m ≤ n) : difference? n m = some (n - m) :=
  if_pos h

namespace Atom

theorem admits?_step (width n : Nat) :
    (step none width).admits? n = (remainder? n width).map fun r => decide (r = 0) := by
  show (remainder? n width).bind _ = _
  cases remainder? n width with
  | none => rfl
  | some r => rfl

/-- A difference is only taken where there is one. -/
theorem admits?_step_within {start stop n : Nat} (hn : start ≤ n ∧ n ≤ stop) (width : Nat) :
    (step (some (start, stop)) width).admits? n =
      (remainder? (n - start) width).map fun r => decide (r = 0) := by
  show (if start ≤ n ∧ n ≤ stop then _ else some false) = _
  rw [if_pos hn, difference?_of_le hn.1]
  show (remainder? (n - start) width).bind _ = _
  cases remainder? (n - start) width with
  | none => rfl
  | some r => rfl

theorem admits?_step_outside {start stop n : Nat} (hn : ¬(start ≤ n ∧ n ≤ stop)) (width : Nat) :
    (step (some (start, stop)) width).admits? n = some false :=
  if_neg hn

/-- Whether the value is to be counted off by a width of zero. -/
def CountsByZero (a : Atom) (n : Nat) : Prop :=
  ∃ ends, a = .step ends 0 ∧ ∀ r ∈ ends, r.1 ≤ n ∧ n ≤ r.2

/-- Each value that is not to be counted off by zero is admitted or not. -/
theorem admits?_of_not_countsByZero {a : Atom} {n : Nat} (h : ¬a.CountsByZero n) :
    a.admits? n = some (a.admits n) := by
  cases a with
  | wildcard => rfl
  | value m => rfl
  | range start stop => rfl
  | step ends width =>
    cases ends with
    | none =>
      have hpos : 0 < width := by
        apply Nat.pos_of_ne_zero
        rintro rfl
        exact h ⟨none, rfl, fun r hr => absurd hr (Option.not_mem_none r)⟩
      rw [admits?_step, remainder?_of_pos hpos]
      rfl
    | some ends =>
      obtain ⟨start, stop⟩ := ends
      by_cases hn : start ≤ n ∧ n ≤ stop
      · have hpos : 0 < width := by
          apply Nat.pos_of_ne_zero
          rintro rfl
          exact h ⟨some (start, stop), rfl, fun r hr => Option.some.inj hr ▸ hn⟩
        rw [admits?_step_within hn, remainder?_of_pos hpos]
        simp [admits, hn.1, hn.2]
      · rw [admits?_step_outside hn]
        have hno : (decide (start ≤ n) && decide (n ≤ stop)) = false := by
          rw [← Bool.decide_and]
          exact decide_eq_false hn
        show some false = some (decide (start ≤ n) && decide (n ≤ stop) && _)
        rw [hno, Bool.false_and]

theorem admits?_of_countsByZero {a : Atom} {n : Nat} (h : a.CountsByZero n) :
    a.admits? n = none := by
  obtain ⟨ends, rfl, hends⟩ := h
  cases ends with
  | none => rw [admits?_step, remainder?_zero, Option.map_none]
  | some ends =>
    have hn : ends.1 ≤ n ∧ n ≤ ends.2 := hends ends rfl
    rw [admits?_step_within hn, remainder?_zero, Option.map_none]

theorem admits?_eq_none_iff {a : Atom} {n : Nat} : a.admits? n = none ↔ a.CountsByZero n := by
  refine ⟨fun h => ?_, admits?_of_countsByZero⟩
  by_contra hno
  rw [admits?_of_not_countsByZero hno] at h
  exact absurd h (by simp)

theorem WellFormed.not_countsByZero {f : Field} {a : Atom} (h : a.WellFormed f) (n : Nat) :
    ¬a.CountsByZero n := by
  rintro ⟨ends, rfl, -⟩
  cases ends with
  | none => exact Nat.lt_irrefl 0 h
  | some ends => exact Nat.lt_irrefl 0 h.2.2.2

theorem admits?_of_wellFormed {f : Field} {a : Atom} (h : a.WellFormed f) (n : Nat) :
    a.admits? n = some (a.admits n) :=
  admits?_of_not_countsByZero (h.not_countsByZero n)

end Atom

theorem anyM_eq_some {α : Type} {l : List α} {p : α → Option Bool} {q : α → Bool}
    (h : ∀ a ∈ l, p a = some (q a)) : l.anyM p = some (l.any q) := by
  induction l with
  | nil => rfl
  | cons a l ih =>
    obtain ⟨ha, hl⟩ := List.forall_mem_cons.1 h
    rw [List.anyM, ha, List.any_cons]
    cases q a with
    | true => rfl
    | false => exact ih hl

theorem allM_eq_some {α : Type} {l : List α} {p : α → Option Bool} {q : α → Bool}
    (h : ∀ a ∈ l, p a = some (q a)) : l.allM p = some (l.all q) := by
  induction l with
  | nil => rfl
  | cons a l ih =>
    obtain ⟨ha, hl⟩ := List.forall_mem_cons.1 h
    rw [List.allM, ha, List.all_cons]
    cases q a with
    | true => exact ih hl
    | false => rfl

theorem Entry.admits?_of_wellFormed {f : Field} {e : Entry} (h : e.WellFormed f) (n : Nat) :
    e.admits? n = some (e.admits n) :=
  anyM_eq_some fun a ha => Atom.admits?_of_wellFormed (h.1 a ha) n

/-- The table has the length of each month in a leap year. -/
theorem longestMonth?_of_admits {month : Nat} (h : Field.month.Admits month) :
    longestMonth? month = some (Time.monthLength true month) := by
  have htable : ∀ m ∈ Field.month.values, longestMonth? m = some (Time.monthLength true m) := by
    decide
  exact htable month ((Field.mem_values_iff _ _).2 h)

namespace Cron

variable {c : Cron}

theorem firesAt?_of_wellFormed (h : c.WellFormed) (t : Time.Timestamp) :
    c.firesAt? t = some (c.firesAt t) :=
  allM_eq_some fun f _ => Entry.admits?_of_wellFormed (h f) (f.valueAt t)

theorem hasValue?_of_wellFormed (h : c.WellFormed) (f : Field) :
    c.hasValue? f = some (c.hasValue f) :=
  anyM_eq_some fun n _ => Entry.admits?_of_wellFormed (h f) n

theorem hasDate?_of_wellFormed (h : c.WellFormed) : c.hasDate? = some c.hasDate := by
  apply anyM_eq_some
  intro m hm
  have hmonth := Entry.admits?_of_wellFormed (h .month) m
  have hlength := longestMonth?_of_admits ((Field.mem_values_iff _ _).1 hm)
  have hdays : (List.range' 1 (Time.monthLength true m)).anyM c.dayOfMonth.admits? =
      some ((List.range' 1 (Time.monthLength true m)).any c.dayOfMonth.admits) :=
    anyM_eq_some fun d _ => Entry.admits?_of_wellFormed (h .dayOfMonth) d
  -- the table is only asked about months that are admitted
  show (c.month.admits? m).bind _ = _
  rw [show c.month.admits? m = some (c.month.admits m) from hmonth, Option.bind_some]
  cases c.month.admits m with
  | false => rfl
  | true =>
    show (longestMonth? m).bind _ = _
    rw [hlength, Option.bind_some, hdays, Bool.true_and]

theorem canFire?_of_wellFormed (h : c.WellFormed) : c.canFire? = some c.canFire := by
  have hdate := hasDate?_of_wellFormed h
  have hminute := hasValue?_of_wellFormed h .minute
  have hhour := hasValue?_of_wellFormed h .hour
  have hweekday := hasValue?_of_wellFormed h .dayOfWeek
  unfold canFire? canFire
  -- the four questions are asked in turn, up to the first that is answered with no
  rw [hdate, hminute, hhour, hweekday]
  cases c.hasDate <;> cases c.hasValue .minute <;> cases c.hasValue .hour <;>
    cases c.hasValue .dayOfWeek <;> rfl

/-- What is read from a text is well-formed, so that each of its atoms can tell of every value
whether it admits it; the schedule can tell whether it fires at any time that a clock shows, and
whether it ever does. -/
theorem parsed_matching_defined {s : List Char} {c : Cron} (h : Cron.parse s = .ok c) :
    c.WellFormed ∧
      (∀ f, ∀ a ∈ (c.entry f).atoms, ∀ n, a.admits? n = some (a.admits n)) ∧
      (∀ f n, (c.entry f).admits? n = some ((c.entry f).admits n)) ∧
      (∀ t, c.firesAt? t = some (c.firesAt t)) ∧ c.canFire? = some c.canFire := by
  have hwell : c.WellFormed := (wellFormed_of_parse h).1
  refine ⟨hwell, ?_, ?_, firesAt?_of_wellFormed hwell, canFire?_of_wellFormed hwell⟩
  · intro f a ha n
    exact Atom.admits?_of_wellFormed ((hwell f).1 a ha) n
  · intro f n
    exact Entry.admits?_of_wellFormed (hwell f) n

theorem parsed_matching_defined_leap_days :
    Cron.parse "*/7 5/9 29 2-12/5 0,6".toList = .ok
        { minute := .one (.step none 7), hour := .one (.step (some (5, 23)) 9),
          dayOfMonth := .exactly 29, month := .one (.step (some (2, 12)) 5),
          dayOfWeek := .list [.value 0, .value 6] } ∧
      Cron.canFire?
        { minute := .one (.step none 7), hour := .one (.step (some (5, 23)) 9),
          dayOfMonth := .exactly 29, month := .one (.step (some (2, 12)) 5),
          dayOfWeek := .list [.value 0, .value 6] } = some true := by
  have h : Cron.parse "*/7 5/9 29 2-12/5 0,6".toList = .ok
      { minute := .one (.step none 7), hour := .one (.step (some (5, 23)) 9),
        dayOfMonth := .exactly 29, month := .one (.step (some (2, 12)) 5),
        dayOfWeek := .list [.value 0, .value 6] } := by
    rfl
  obtain ⟨-, -, -, -, hfire⟩ := parsed_matching_defined h
  exact ⟨h, hfire.trans (by decide)⟩

end Cron

end Workflow.Schedule
