import Workflow.Proofs.Time.Calendar
import Workflow.Schedule.Cron

/-! Whether a schedule ever fires. A day of a leap year falls on every day of the week within four
centuries, so the five fields can be looked at one by one. -/
namespace Workflow.Schedule

open Time

theorem Field.mem_values_iff (f : Field) (n : Nat) : n ∈ f.values ↔ f.Admits n := by
  rw [Field.values, List.mem_range'_1]
  unfold Field.Admits
  cases f <;> simp only [Field.low, Field.high] <;> omega

theorem Field.admits_valueAt (f : Field) (t : Timestamp) : f.Admits (f.valueAt t) := by
  have hdate := (Date.isValid_iff t.date).mp t.isValid_date
  have hsecond := t.secondOfDay_lt
  have hlength := monthLength_le (isLeap t.date.year) t.date.month
  cases f <;> unfold Field.Admits Field.valueAt <;>
    simp only [Field.low, Field.high, Timestamp.minute, Timestamp.hour] <;> omega

namespace Cron

theorem firesAt_iff (c : Cron) (t : Timestamp) :
    c.firesAt t = true ↔ ∀ f : Field, (c.entry f).admits (f.valueAt t) = true := by
  unfold firesAt
  rw [List.all_eq_true]
  refine ⟨fun h f => h f (by cases f <;> decide), fun h f _ => h f⟩

theorem hasValue_iff (c : Cron) (f : Field) :
    c.hasValue f = true ↔ ∃ n, f.Admits n ∧ (c.entry f).admits n = true := by
  unfold hasValue
  simp only [List.any_eq_true, Field.mem_values_iff]

theorem hasDate_iff (c : Cron) : c.hasDate = true ↔ ∃ m d, Field.month.Admits m ∧
    c.month.admits m = true ∧ 1 ≤ d ∧ d ≤ monthLength true m ∧ c.dayOfMonth.admits d = true := by
  unfold hasDate
  simp only [List.any_eq_true, Bool.and_eq_true, Field.mem_values_iff, List.mem_range'_1]
  constructor
  · rintro ⟨m, hm, hma, d, ⟨hd, hlt⟩, hda⟩
    have hdl : d ≤ monthLength true m := by omega
    exact ⟨m, d, hm, hma, hd, hdl, hda⟩
  · rintro ⟨m, d, hm, hma, hd, hdl, hda⟩
    have hlt : d < 1 + monthLength true m := by omega
    exact ⟨m, hm, hma, d, ⟨hd, hlt⟩, hda⟩

theorem canFire_iff (c : Cron) : c.canFire = true ↔ c.hasDate = true ∧
    c.hasValue .minute = true ∧ c.hasValue .hour = true ∧ c.hasValue .dayOfWeek = true := by
  simp only [canFire, Bool.and_eq_true, and_assoc]

theorem monthLength_le_leap (leap : Bool) (month : Nat) :
    monthLength leap month ≤ monthLength true month := by
  cases leap
  · simp only [monthLength, Bool.false_eq_true, if_false, if_true]
    split_ifs <;> decide
  · exact le_rfl

theorem canFire_of_firesAt {c : Cron} {t : Timestamp} (h : c.firesAt t = true) :
    c.canFire = true := by
  rw [firesAt_iff] at h
  have hvalue (f : Field) : c.hasValue f = true :=
    (c.hasValue_iff f).mpr ⟨_, f.admits_valueAt t, h f⟩
  obtain ⟨hm, hm', hd, hd'⟩ := (Date.isValid_iff t.date).mp t.isValid_date
  rw [canFire_iff, hasDate_iff]
  refine ⟨⟨t.date.month, t.date.day, ⟨hm, hm'⟩, h .month, hd, ?_, h .dayOfMonth⟩,
    hvalue .minute, hvalue .hour, hvalue .dayOfWeek⟩
  exact hd'.trans (monthLength_le_leap _ _)

/-- Every day that leap years have falls, within any four centuries, on every day of the week. -/
theorem exists_leap_day_on_weekday (month day weekday : Nat) (hw : weekday ≤ 6) (start : Int) :
    ∃ year : Int, isLeap year = true ∧
      (Date.weekday ⟨year, month, day⟩ + 1) % 7 = weekday ∧
      start ≤ Date.toDays ⟨year, month, day⟩ ∧
      Date.toDays ⟨year, month, day⟩ < start + 146097 := by
  let base := Date.toDays ⟨2000, month, day⟩
  -- four years move a day by five days of the week, and three times five is one
  let k := (3 * (weekday - 1 - (base + 3)) % 7).toNat
  let j := (start - base - 1461 * k + 146096) / 146097
  have hk : (k : Int) = 3 * (weekday - 1 - (base + 3)) % 7 := by omega
  have hd := Date.toDays_leap_year k (by omega) j month day
  refine ⟨2000 + 4 * k + 400 * j, ?_, ?_, ?_, ?_⟩
  · rw [isLeap_iff]
    omega
  · unfold Date.weekday
    omega
  · omega
  · omega

theorem exists_firesAt_of_canFire {c : Cron} (h : c.canFire = true) (start : Int) :
    ∃ t : Timestamp, t.IsMinute ∧ start ≤ t.seconds ∧ t.seconds < start + fourCenturies ∧
      c.firesAt t = true := by
  obtain ⟨hdate, hminute, hhour, hweek⟩ := (canFire_iff c).mp h
  obtain ⟨m, d, hm, hma, hd, hdl, hda⟩ := (hasDate_iff c).mp hdate
  obtain ⟨minute, hminute, hminutea⟩ := (hasValue_iff c .minute).mp hminute
  obtain ⟨hour, hhour, hhoura⟩ := (hasValue_iff c .hour).mp hhour
  obtain ⟨w, hw, hwa⟩ := (hasValue_iff c .dayOfWeek).mp hweek
  simp only [Field.Admits, Field.low, Field.high] at hm hminute hhour hw
  let second := hour * 3600 + minute * 60
  have hsecond : second < 86400 := by omega
  -- the first day whose time of day does not come before the start
  obtain ⟨year, hleap, hweekday, hge, hlt⟩ := exists_leap_day_on_weekday m d w hw.2
    ((start - second + 86399) / 86400)
  have hvalid : Date.isValid ⟨year, m, d⟩ = true := by
    rw [Date.isValid_iff]
    dsimp only
    rw [hleap]
    exact ⟨hm.1, hm.2, hd, hdl⟩
  have htdate := Timestamp.date_ofDate hvalid hsecond
  have htsecond := Timestamp.secondOfDay_ofDate ⟨year, m, d⟩ hsecond
  refine ⟨.ofDate ⟨year, m, d⟩ second, Timestamp.ofDate_isMinute _ _ _, ?_, ?_, ?_⟩
  · unfold Timestamp.ofDate secondsPerDay
    dsimp only
    omega
  · unfold Timestamp.ofDate fourCenturies secondsPerDay
    dsimp only
    omega
  · rw [firesAt_iff]
    intro f
    cases f <;> unfold Field.valueAt entry <;> dsimp only
    · have hv : (Timestamp.ofDate ⟨year, m, d⟩ second).minute = minute := by
        unfold Timestamp.minute
        omega
      rw [hv]
      exact hminutea
    · have hv : (Timestamp.ofDate ⟨year, m, d⟩ second).hour = hour := by
        unfold Timestamp.hour
        omega
      rw [hv]
      exact hhoura
    · rw [htdate]
      exact hda
    · rw [htdate]
      exact hma
    · rw [htdate, hweekday]
      exact hwa

/-- A schedule can fire exactly if it fires at some minute, and then it does so within any four
centuries, whether they start with a year or at any other second. -/
theorem canFire_iff_firesAt_minute (c : Cron) :
    (c.canFire = true ↔ ∃ t : Timestamp, t.IsMinute ∧ c.firesAt t = true) ∧
      (c.canFire = true →
        (∀ year : Int, ∃ t : Timestamp, t.IsMinute ∧ year ≤ t.date.year ∧
          t.date.year < year + 400 ∧ c.firesAt t = true) ∧
        ∀ start : Int, ∃ t : Timestamp, t.IsMinute ∧ start ≤ t.seconds ∧
          t.seconds < start + fourCenturies ∧ c.firesAt t = true) := by
  refine ⟨⟨fun h => ?_, ?_⟩, fun h => ⟨fun year => ?_, exists_firesAt_of_canFire h⟩⟩
  · obtain ⟨t, ht, _, _, hf⟩ := exists_firesAt_of_canFire h 0
    exact ⟨t, ht, hf⟩
  · rintro ⟨t, _, hf⟩
    exact canFire_of_firesAt hf
  · obtain ⟨t, ht, hge, hlt, hf⟩ :=
      exists_firesAt_of_canFire h (Date.toDays ⟨year, 1, 1⟩ * secondsPerDay)
    have hyear := t.year_bounds_of_seconds hge hlt
    exact ⟨t, ht, hyear.1, hyear.2, hf⟩

end Cron

end Workflow.Schedule
