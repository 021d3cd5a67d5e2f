import Workflow.Time.Moment
import Mathlib.Tactic.Linarith

/-! The days of the calendar, one by one: every day has exactly one date, and four centuries later
the calendar repeats itself on the same days of the week. -/
namespace Workflow.Time

def yearLength (leap : Bool) : Nat :=
  if leap then 366 else 365

theorem isLeap_iff (year : Int) :
    isLeap year = true ↔ year % 4 = 0 ∧ (year % 100 ≠ 0 ∨ year % 400 = 0) := by
  simp only [isLeap, Bool.and_eq_true, Bool.or_eq_true, decide_eq_true_eq]

theorem daysBefore_succ (leap : Bool) (month : Nat) (h : 1 ≤ month) :
    daysBefore leap (month + 1) = daysBefore leap month + monthLength leap month := by
  obtain ⟨k, rfl⟩ := Nat.exists_eq_add_of_le' h
  rfl

theorem monthLength_pos (leap : Bool) (month : Nat) : 0 < monthLength leap month := by
  unfold monthLength
  split_ifs <;> omega

theorem monthLength_le (leap : Bool) (month : Nat) : monthLength leap month ≤ 31 := by
  unfold monthLength
  split_ifs <;> omega

theorem daysBefore_mono (leap : Bool) {k m : Nat} (hk : 1 ≤ k) (h : k ≤ m) :
    daysBefore leap k ≤ daysBefore leap m := by
  induction m, h using Nat.le_induction with
  | base => exact le_rfl
  | succ m hm ih =>
    rw [daysBefore_succ leap m (hk.trans hm)]
    omega

theorem daysBefore_december (leap : Bool) :
    daysBefore leap 12 + monthLength leap 12 = yearLength leap := by
  cases leap <;> rfl

namespace Date

theorem daysBeforeYear_succ (year : Int) :
    daysBeforeYear (year + 1) = daysBeforeYear year + yearLength (isLeap year) := by
  have h := isLeap_iff year
  unfold daysBeforeYear yearLength
  split_ifs with hl
  · have := h.mp hl
    push_cast
    omega
  · have := mt h.mpr hl
    push_cast
    omega

theorem daysBeforeYear_mono {y z : Int} (h : y ≤ z) : daysBeforeYear y ≤ daysBeforeYear z := by
  unfold daysBeforeYear
  dsimp only
  omega

/-- Reading off the month of a day of the year leaves a day that the month has. -/
theorem ofOrdinal_spec (leap : Bool) (n month tries : Nat) (hm : 1 ≤ month)
    (ht : month + tries = 12) (hn : daysBefore leap month + n < yearLength leap) :
    month ≤ (ofOrdinal leap n month tries).1 ∧ (ofOrdinal leap n month tries).1 ≤ 12 ∧
      1 ≤ (ofOrdinal leap n month tries).2 ∧
      (ofOrdinal leap n month tries).2 ≤ monthLength leap (ofOrdinal leap n month tries).1 ∧
      daysBefore leap (ofOrdinal leap n month tries).1 + (ofOrdinal leap n month tries).2 =
        daysBefore leap month + n + 1 := by
  induction tries generalizing n month with
  | zero =>
    obtain rfl : month = 12 := ht
    have := daysBefore_december leap
    simp only [ofOrdinal]
    omega
  | succ tries ih =>
    unfold ofOrdinal
    split_ifs with hlt
    · dsimp only
      omega
    · have hs := daysBefore_succ leap month hm
      have := ih (n - monthLength leap month) (month + 1) (by omega) (by omega) (by omega)
      omega

theorem daysBeforeYear_split (a c q l : Int) (hc : 0 ≤ c ∧ c ≤ 3) (hq : 0 ≤ q ∧ q ≤ 24)
    (hl : 0 ≤ l ∧ l ≤ 3) :
    daysBeforeYear (400 * a + (100 * c + 4 * q + l) + 1) =
      146097 * a + 36524 * c + 1461 * q + 365 * l := by
  unfold daysBeforeYear
  dsimp only
  omega

/-- The centuries, spans of four years and years that `ofDays` takes from a day of four centuries
leave a day of the year. -/
theorem split_days (r : Nat) (hr : r < 146097) :
    ∃ c q l : Nat, ∃ k : Nat, c = min (r / 36524) 3 ∧ q = (r - c * 36524) / 1461 ∧
      l = min ((r - c * 36524) % 1461 / 365) 3 ∧ k = (r - c * 36524) % 1461 - l * 365 ∧
      c ≤ 3 ∧ q ≤ 24 ∧ l ≤ 3 ∧ r = 36524 * c + 1461 * q + 365 * l + k ∧
      (k < 365 ∨ k = 365 ∧ l = 3 ∧ (q = 24 → c = 3)) := by
  refine ⟨_, _, _, _, rfl, rfl, rfl, rfl, ?_⟩
  omega

/-- The year of a day, and the days of that year that have passed before it. -/
theorem ofDays_eq (n : Int) : ∃ year : Int, ∃ k : Nat, k < yearLength (isLeap year) ∧
    n + epoch = daysBeforeYear year + k ∧
    ofDays n = ⟨year, (ofOrdinal (isLeap year) k 1 11).1, (ofOrdinal (isLeap year) k 1 11).2⟩ := by
  -- four centuries have the same number of days wherever they start, so only the rest is split
  obtain ⟨c, q, l, k, hc, hq, hl, hk, hc3, hq24, hl3, hr, hlast⟩ :=
    split_days ((n + epoch) % 146097).toNat (by omega)
  refine ⟨400 * ((n + epoch) / 146097) + (100 * c + 4 * q + l : Nat) + 1, k, ?_, ?_, ?_⟩
  · have hleap := isLeap_iff (400 * ((n + epoch) / 146097) + (100 * c + 4 * q + l : Nat) + 1)
    unfold yearLength
    split_ifs with h
    · omega
    · have := mt hleap.mpr h
      omega
  · have hs := daysBeforeYear_split ((n + epoch) / 146097) c q l (by omega) (by omega) (by omega)
    push_cast
    rw [hs]
    omega
  · subst hc hq hl hk
    rfl

theorem isValid_iff (d : Date) : d.isValid = true ↔
    1 ≤ d.month ∧ d.month ≤ 12 ∧ 1 ≤ d.day ∧ d.day ≤ monthLength (isLeap d.year) d.month := by
  simp only [isValid, Bool.and_eq_true, decide_eq_true_eq, and_assoc]

theorem isValid_ofDays (n : Int) : (ofDays n).isValid = true := by
  obtain ⟨year, k, hk, _, he⟩ := ofDays_eq n
  have hs := ofOrdinal_spec (isLeap year) k 1 11 le_rfl rfl (by simpa [daysBefore] using hk)
  rw [he, isValid_iff]
  exact ⟨hs.1, hs.2.1, hs.2.2.1, hs.2.2.2.1⟩

theorem toDays_ofDays (n : Int) : (ofDays n).toDays = n := by
  obtain ⟨year, k, hk, hn, he⟩ := ofDays_eq n
  have hs := ofOrdinal_spec (isLeap year) k 1 11 le_rfl rfl (by simpa [daysBefore] using hk)
  have h1 : daysBefore (isLeap year) 1 = 0 := rfl
  rw [he]
  unfold toDays ordinal
  dsimp only
  omega

theorem ordinal_bounds {d : Date} (hd : d.isValid = true) :
    1 ≤ d.ordinal ∧ d.ordinal ≤ yearLength (isLeap d.year) := by
  obtain ⟨hm, hm', hday, hday'⟩ := (isValid_iff d).mp hd
  have hstep := daysBefore_succ (isLeap d.year) d.month hm
  unfold ordinal
  refine ⟨by omega, ?_⟩
  -- December has no month behind it whose start could bound it
  by_cases h : d.month = 12
  · have := daysBefore_december (isLeap d.year)
    rw [h] at hday' ⊢
    omega
  · have := daysBefore_mono (isLeap d.year) (by omega) (show d.month + 1 ≤ 12 by omega)
    have := daysBefore_december (isLeap d.year)
    omega

theorem toDays_lt_of_year_lt {d e : Date} (hd : d.isValid = true) (he : e.isValid = true)
    (h : d.year < e.year) : d.toDays < e.toDays := by
  have := ordinal_bounds hd
  have := ordinal_bounds he
  have := daysBeforeYear_succ d.year
  have := daysBeforeYear_mono (show d.year + 1 ≤ e.year by omega)
  unfold toDays
  omega

theorem toDays_le_of_year_le {d : Date} (hd : d.isValid = true) {year : Int}
    (h : year ≤ d.year) : toDays ⟨year, 1, 1⟩ ≤ d.toDays := by
  have := ordinal_bounds hd
  have := daysBeforeYear_mono h
  have hfirst : ordinal ⟨year, 1, 1⟩ = 1 := rfl
  unfold toDays
  dsimp only
  omega

theorem ordinal_lt_of_month_lt {leap : Bool} {m m' : Nat} {day : Nat} (hm : 1 ≤ m) (h : m < m')
    (hday : day ≤ monthLength leap m) : daysBefore leap m + day ≤ daysBefore leap m' := by
  have := daysBefore_succ leap m hm
  have := daysBefore_mono leap (by omega) (show m + 1 ≤ m' by omega)
  omega

/-- A day of the calendar has one date only. -/
theorem toDays_injective {d e : Date} (hd : d.isValid = true) (he : e.isValid = true)
    (h : d.toDays = e.toDays) : d = e := by
  -- of two dates with different years, and then with different months, one comes first
  have hy : d.year = e.year := by
    rcases lt_trichotomy d.year e.year with hlt | heq | hlt
    · exact absurd h (toDays_lt_of_year_lt hd he hlt).ne
    · exact heq
    · exact absurd h (toDays_lt_of_year_lt he hd hlt).ne'
  obtain ⟨hdm, _, hd1, hdl⟩ := (isValid_iff d).mp hd
  obtain ⟨hem, _, he1, hel⟩ := (isValid_iff e).mp he
  have ho : d.ordinal = e.ordinal := by
    unfold toDays at h
    rw [hy] at h
    omega
  unfold ordinal at ho
  rw [hy] at ho hdl
  have hmonth : d.month = e.month := by
    rcases lt_trichotomy d.month e.month with hlt | heq | hlt
    · have := ordinal_lt_of_month_lt hdm hlt hdl
      omega
    · exact heq
    · have := ordinal_lt_of_month_lt hem hlt hel
      omega
  rw [hmonth] at ho
  cases d
  cases e
  simp only at hy hmonth ho
  simp only [Date.mk.injEq]
  exact ⟨hy, hmonth, by omega⟩

theorem ofDays_toDays {d : Date} (hd : d.isValid = true) : ofDays d.toDays = d :=
  toDays_injective (isValid_ofDays _) hd (toDays_ofDays _)

/-- The days of a leap year between 2000 and 2099, and of those any number of four centuries away. -/
theorem toDays_leap_year (k : Nat) (hk : k ≤ 24) (j : Int) (month day : Nat) :
    toDays ⟨2000 + 4 * k + 400 * j, month, day⟩ =
      toDays ⟨2000, month, day⟩ + 1461 * k + 146097 * j := by
  have hl : isLeap (2000 + 4 * k + 400 * j) = isLeap 2000 := by
    rw [show isLeap 2000 = true from rfl, isLeap_iff]
    omega
  unfold toDays ordinal daysBeforeYear
  dsimp only
  rw [hl]
  omega

end Date

/-- The seconds of four centuries. -/
def fourCenturies : Int :=
  146097 * secondsPerDay

namespace Timestamp

/-- The start of a minute. -/
def IsMinute (t : Timestamp) : Prop :=
  t.seconds % 60 = 0 ∧ t.nanos = 0

theorem ofDate_isMinute (d : Date) (hour minute : Nat) :
    (ofDate d (hour * 3600 + minute * 60)).IsMinute := by
  unfold IsMinute ofDate secondsPerDay
  dsimp only
  omega

theorem date_ofDate {d : Date} (hd : d.isValid = true) {second : Nat} (hs : second < 86400) :
    (ofDate d second).date = d := by
  have hday : (d.toDays * secondsPerDay + second) / secondsPerDay = d.toDays := by
    unfold secondsPerDay
    omega
  unfold date ofDate
  rw [hday, Date.ofDays_toDays hd]

theorem secondOfDay_ofDate (d : Date) {second : Nat} (hs : second < 86400) :
    (ofDate d second).secondOfDay = second := by
  unfold secondOfDay ofDate secondsPerDay
  dsimp only
  omega

theorem isValid_date (t : Timestamp) : t.date.isValid = true :=
  Date.isValid_ofDays _

theorem secondOfDay_lt (t : Timestamp) : t.secondOfDay < 86400 := by
  unfold secondOfDay secondsPerDay
  omega

theorem toDays_date (t : Timestamp) : t.date.toDays = t.seconds / secondsPerDay :=
  Date.toDays_ofDays _

/-- Four centuries from the start of a year on are the days of four hundred years. -/
theorem year_bounds_of_seconds (t : Timestamp) {year : Int}
    (hge : Date.toDays ⟨year, 1, 1⟩ * secondsPerDay ≤ t.seconds)
    (hlt : t.seconds < Date.toDays ⟨year, 1, 1⟩ * secondsPerDay + fourCenturies) :
    year ≤ t.date.year ∧ t.date.year < year + 400 := by
  have hfirst (y : Int) : Date.isValid ⟨y, 1, 1⟩ = true :=
    (Date.isValid_iff _).mpr ⟨le_rfl, Nat.le_add_left 1 11, le_rfl, monthLength_pos _ _⟩
  have hday := t.toDays_date
  have hperiod : Date.toDays ⟨year + 400, 1, 1⟩ = Date.toDays ⟨year, 1, 1⟩ + 146097 := by
    unfold Date.toDays Date.ordinal Date.daysBeforeYear
    simp only [daysBefore]
    omega
  unfold fourCenturies secondsPerDay at *
  constructor
  · by_contra h
    have := Date.toDays_lt_of_year_lt t.isValid_date (hfirst year) (not_le.mp h)
    omega
  · by_contra h
    have hstart := Date.toDays_le_of_year_le t.isValid_date (not_lt.mp h)
    omega

end Timestamp

end Workflow.Time
