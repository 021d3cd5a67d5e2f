import Workflow.Proofs.Schedule.CanFire
import Workflow.Proofs.Schedule.RoundTrip
import Workflow.Schedule.Conversion

/-! Settings in simple mode. Whatever numbers and texts they hold, they stand for a schedule that can
be read and that fires, and it does so just when they are due. -/
namespace Workflow.Schedule

open Text Time

namespace Settings

/-- Whether a value is counted by the number of the settings, which is cut off at `greatest`. No
number counts all values, and so do 0 and 1. -/
def Counts (s : Settings) (greatest n : Nat) : Prop :=
  ∀ k ∈ s.intervalValue, 2 ≤ k → min k greatest ∣ n

/-- Whether settings in simple mode are due at what a clock shows. Weeks are counted from Sunday, a
weekday that does not exist is Saturday, and a day of the month that does not is the nearest one. -/
def IsDue (s : Settings) (t : Timestamp) : Prop :=
  let onMinute := t.minute = s.clock.2
  let onTime := t.hour = s.clock.1 ∧ onMinute
  match s.interval.getD .day with
  | .minute => True
  | .minutes => s.Counts 59 t.minute
  | .hour => onMinute
  | .hours => onMinute ∧ s.Counts 23 t.hour
  | .day => onTime ∧ (s.weekdaysOnly = some true → t.date.weekday < 5)
  | .week => onTime ∧ (t.date.weekday + 1) % 7 = min (s.weekday.getD 1) 6
  | .month => onTime ∧ t.date.day = max 1 (min (s.dayOfMonth.getD 1) 31)

end Settings

theorem clockPart_le (greatest : Nat) (s : List Char) : clockPart greatest s ≤ greatest :=
  Nat.min_le_right _ _

/-- Any text has an hour and a minute. -/
theorem timeOfDay_le (s : List Char) : (timeOfDay s).1 ≤ 23 ∧ (timeOfDay s).2 ≤ 59 := by
  unfold timeOfDay
  cases cutChar? ':' (trim s) with
  | none => exact ⟨clockPart_le 23 _, Nat.zero_le 59⟩
  | some parts => exact ⟨clockPart_le 23 _, clockPart_le 59 _⟩

theorem clock_le (s : Settings) : s.clock.1 ≤ 23 ∧ s.clock.2 ≤ 59 := by
  unfold Settings.clock
  cases s.time with
  | none => exact ⟨Nat.zero_le 23, Nat.zero_le 59⟩
  | some text => exact timeOfDay_le text.toList

namespace Entry

theorem admits_one (a : Atom) (n : Nat) : (Entry.one a).admits n = a.admits n :=
  Bool.or_false _

theorem admits_any (n : Nat) : Entry.any.admits n = true :=
  admits_one .wildcard n

theorem admits_exactly_iff {m n : Nat} : (Entry.exactly m).admits n = true ↔ n = m := by
  rw [exactly, admits_one]
  exact decide_eq_true_iff

theorem admits_everyNth_iff {k n : Nat} : (everyNth k).admits n = true ↔ (2 ≤ k → k ∣ n) := by
  unfold everyNth
  by_cases hk : k ≤ 1
  · have hnot : ¬2 ≤ k := Nat.not_le.2 (Nat.lt_succ_of_le hk)
    rw [if_pos hk, admits_any]
    exact iff_of_true rfl fun h => absurd h hnot
  · have htwo : 2 ≤ k := Nat.not_le.1 hk
    have hstep : (Entry.one (.step none k)).admits n = true ↔ n % k = 0 := by
      rw [admits_one]
      exact decide_eq_true_iff
    rw [if_neg hk, hstep, Nat.dvd_iff_mod_eq_zero, forall_prop_of_true htwo]

theorem admits_range_iff {start stop n : Nat} :
    (Entry.one (.range start stop)).admits n = true ↔ start ≤ n ∧ n ≤ stop := by
  rw [admits_one]
  show (decide (start ≤ n) && decide (n ≤ stop)) = true ↔ _
  rw [Bool.and_eq_true, decide_eq_true_iff, decide_eq_true_iff]

/-- An entry of the field that can be written, read back and met. -/
structure Usable (e : Entry) (f : Field) : Prop where
  wellFormed : e.WellFormed f
  fits : ∀ a ∈ e.atoms, a.Fits
  met : ∃ n, f.Admits n ∧ e.admits n = true

theorem usable_one {f : Field} {a : Atom} (hwell : a.WellFormed f) (hfits : a.Fits) {n : Nat}
    (hn : f.Admits n) (hmet : a.admits n = true) : (Entry.one a).Usable f where
  wellFormed := wellFormed_one hwell
  fits := by
    intro b hb
    rw [List.mem_singleton.1 hb]
    exact hfits
  met := ⟨n, hn, (admits_one a n).trans hmet⟩

theorem usable_any (f : Field) : Entry.any.Usable f :=
  usable_one trivial trivial (admits_high f) rfl

theorem usable_exactly {f : Field} {n : Nat} (h : f.Admits n) : (Entry.exactly n).Usable f :=
  usable_one h trivial h (decide_eq_true rfl)

/-- Zero is a multiple of every step. -/
theorem usable_everyNth {f : Field} (hzero : f.Admits 0) {k : Nat} (hk : k < numberBound) :
    (everyNth k).Usable f := by
  unfold everyNth
  by_cases hone : k ≤ 1
  · rw [if_pos hone]
    exact usable_any f
  · have hpos : 0 < k := Nat.lt_of_lt_of_le Nat.one_pos (Nat.le_of_not_le hone)
    rw [if_neg hone]
    exact usable_one hpos hk hzero (decide_eq_true (Nat.zero_mod k))

theorem usable_range {f : Field} {start stop : Nat} (hstart : f.Admits start)
    (hstop : f.Admits stop) (hle : start ≤ stop) : (Entry.one (.range start stop)).Usable f := by
  have hmet : (Atom.range start stop).admits start = true := by
    show (decide (start ≤ start) && decide (start ≤ stop)) = true
    simp [hle]
  exact usable_one ⟨hstart, hstop, hle⟩ trivial hstart hmet

end Entry

theorem Field.forall_iff {p : Field → Prop} :
    (∀ f, p f) ↔ p .minute ∧ p .hour ∧ p .dayOfMonth ∧ p .month ∧ p .dayOfWeek := by
  constructor
  · intro h
    exact ⟨h _, h _, h _, h _, h _⟩
  · rintro ⟨hminute, hhour, hday, hmonth, hweekday⟩ f
    cases f <;> assumption

/-- A month that has all days is enough for an entry of days. -/
theorem Cron.canFire_of_usable {c : Cron} (h : ∀ f, (c.entry f).Usable f)
    (hjanuary : c.month.admits 1 = true) : c.canFire = true := by
  have hvalue (f : Field) : c.hasValue f = true := (c.hasValue_iff f).2 (h f).met
  obtain ⟨day, ⟨hlow, hhigh⟩, hday⟩ := (h .dayOfMonth).met
  have hdate : c.hasDate = true :=
    (c.hasDate_iff).2 ⟨1, day, by decide, hjanuary, hlow, hhigh, hday⟩
  exact (c.canFire_iff).2 ⟨hdate, hvalue .minute, hvalue .hour, hvalue .dayOfWeek⟩

theorem usable_simpleCron (s : Settings) (f : Field) : (s.simpleCron.entry f).Usable f := by
  obtain ⟨hhour, hminute⟩ := clock_le s
  let k := s.intervalValue.getD 0
  have hbound : ∀ greatest < numberBound, min k greatest < numberBound := by
    intro greatest hlt
    exact Nat.lt_of_le_of_lt (Nat.min_le_right k greatest) hlt
  have minute : (Entry.exactly s.clock.2).Usable .minute :=
    Entry.usable_exactly ⟨Nat.zero_le _, hminute⟩
  have minutes : (everyNth (min k 59)).Usable .minute :=
    Entry.usable_everyNth (by decide) (hbound 59 (by decide))
  have hour : (Entry.exactly s.clock.1).Usable .hour :=
    Entry.usable_exactly ⟨Nat.zero_le _, hhour⟩
  have hours : (everyNth (min k 23)).Usable .hour :=
    Entry.usable_everyNth (by decide) (hbound 23 (by decide))
  have weekdays : (Entry.one (.range 1 5)).Usable .dayOfWeek :=
    Entry.usable_range (by decide) (by decide) (by decide)
  have weekday : (Entry.exactly (min (s.weekday.getD 1) 6)).Usable .dayOfWeek :=
    Entry.usable_exactly ⟨Nat.zero_le _, Nat.min_le_right _ _⟩
  have day : (Entry.exactly (min (max (s.dayOfMonth.getD 1) 1) 31)).Usable .dayOfMonth := by
    apply Entry.usable_exactly
    constructor
    · exact Nat.le_min.2 ⟨Nat.le_max_right _ _, by decide⟩
    · exact Nat.min_le_right _ _
  -- each interval fills some of the fields with these entries and leaves the others free
  unfold Settings.simpleCron
  generalize s.interval.getD .day = interval
  cases interval with
  | minute => cases f <;> exact Entry.usable_any _
  | minutes => cases f <;> first | exact minutes | exact Entry.usable_any _
  | hour => cases f <;> first | exact minute | exact Entry.usable_any _
  | hours => cases f <;> first | exact minute | exact hours | exact Entry.usable_any _
  | day =>
    cases s.weekdaysOnly.getD false <;> cases f <;>
      first | exact minute | exact hour | exact weekdays | exact Entry.usable_any _
  | week =>
    cases f <;> first | exact minute | exact hour | exact weekday | exact Entry.usable_any _
  | month => cases f <;> first | exact minute | exact hour | exact day | exact Entry.usable_any _

theorem admits_counted_iff (s : Settings) {greatest : Nat} (h : 2 ≤ greatest) (n : Nat) :
    (everyNth (min (s.intervalValue.getD 0) greatest)).admits n = true ↔ s.Counts greatest n := by
  rw [Entry.admits_everyNth_iff]
  unfold Settings.Counts
  cases s.intervalValue with
  | none => simp
  | some k =>
    -- cutting a number off does not make it 0 or 1
    have hmin : 2 ≤ min k greatest ↔ 2 ≤ k := by omega
    simp [hmin]

/-- From Monday to Friday, with weeks that start on Sunday. -/
theorem workday_iff (d : Date) :
    (1 ≤ (d.weekday + 1) % 7 ∧ (d.weekday + 1) % 7 ≤ 5) ↔ d.weekday < 5 := by
  have hlt : d.weekday < 7 := by
    unfold Date.weekday
    omega
  omega

theorem simpleCron_firesAt_iff (s : Settings) (t : Timestamp) :
    s.simpleCron.firesAt t = true ↔ s.IsDue t := by
  have hminutes : (everyNth (min (s.intervalValue.getD 0) 59)).admits t.minute = true ↔
      s.Counts 59 t.minute := admits_counted_iff s (by decide) t.minute
  have hhours : (everyNth (min (s.intervalValue.getD 0) 23)).admits t.hour = true ↔
      s.Counts 23 t.hour := admits_counted_iff s (by decide) t.hour
  have honly : s.weekdaysOnly = some true ↔ s.weekdaysOnly.getD false = true := by
    cases s.weekdaysOnly with
    | none => simp
    | some b => simp
  have hday : min (max (s.dayOfMonth.getD 1) 1) 31 = max 1 (min (s.dayOfMonth.getD 1) 31) := by
    omega
  rw [Cron.firesAt_iff, Field.forall_iff]
  unfold Settings.simpleCron Settings.IsDue
  generalize s.interval.getD .day = interval
  -- free entries say nothing, and each of the others says its part
  cases interval with
  | minute => simp [Cron.entry, Entry.admits_any]
  | minutes => simp [Cron.entry, Entry.admits_any, Field.valueAt, hminutes]
  | hour => simp [Cron.entry, Entry.admits_any, Field.valueAt, Entry.admits_exactly_iff]
  | hours => simp [Cron.entry, Entry.admits_any, Field.valueAt, Entry.admits_exactly_iff, hhours]
  | day =>
    cases hb : s.weekdaysOnly.getD false with
    | false =>
      simp [Cron.entry, Entry.admits_any, Field.valueAt, Entry.admits_exactly_iff, honly, hb,
        and_comm]
    | true =>
      simp [Cron.entry, Entry.admits_any, Field.valueAt, Entry.admits_exactly_iff,
        Entry.admits_range_iff, workday_iff, honly, hb, and_comm, and_assoc]
  | week =>
    simp [Cron.entry, Entry.admits_any, Field.valueAt, Entry.admits_exactly_iff, and_comm,
      and_assoc]
  | month =>
    simp [Cron.entry, Entry.admits_any, Field.valueAt, Entry.admits_exactly_iff, hday, and_comm,
      and_assoc]

theorem expression_simple (s : Settings) (default : String) (zones : ZoneDatabase) :
    (Settings.expression { s with mode := some .simple } default zones).toList =
      s.simpleCron.text :=
  String.toList_ofList

/-- Settings in simple mode mean what they say. Their expression is a schedule that can be read and
that can fire, and it fires at what a clock shows just when they are due; any text for the time of
day gives an hour and a minute that there are. -/
theorem simple_mode_fires_when_due :
    (∀ (zones : ZoneDatabase) (s : Settings) (default : String), ∃ c,
      Cron.parse (Settings.expression { s with mode := some .simple } default zones).toList = .ok c ∧
        c.canFire = true ∧ ∀ t, c.firesAt t = true ↔ s.IsDue t) ∧
    ∀ text : List Char, (timeOfDay text).1 ≤ 23 ∧ (timeOfDay text).2 ≤ 59 := by
  refine ⟨?_, timeOfDay_le⟩
  intro zones s default
  have husable := usable_simpleCron s
  have hread : Cron.parse s.simpleCron.text = .ok s.simpleCron :=
    parse_text (fun f => (husable f).wellFormed) fun f => (husable f).fits
  -- the schedule that is read is the one that was written
  refine ⟨s.simpleCron, ?_, ?_, simpleCron_firesAt_iff s⟩
  · rw [expression_simple]
    exact hread
  · apply Cron.canFire_of_usable husable
    -- no interval is bound to a month
    have hmonth : s.simpleCron.month = .any := by
      unfold Settings.simpleCron
      generalize s.interval.getD .day = interval
      cases interval with
      | day => cases s.weekdaysOnly.getD false <;> rfl
      | _ => rfl
    rw [hmonth]
    exact Entry.admits_any 1

end Workflow.Schedule
