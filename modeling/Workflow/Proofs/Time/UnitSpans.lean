import Workflow.Proofs.Time.LeapSecond
import Workflow.Proofs.Time.Offset
import Workflow.Proofs.Time.TextOrder

/-! Units of time as spans of seconds on a clock. The spans of a unit follow one another: the moment
one unit behind the start of a span is the start of the next one. -/
namespace Workflow.Time

namespace Date

def monthCount (d : Date) : Int :=
  d.year * 12 + d.month - 1

def ofMonthCount (n : Int) : Date :=
  { year := n / 12, month := (n % 12).toNat + 1, day := 1 }

theorem isValid_ofMonthCount (n : Int) : (ofMonthCount n).isValid = true := by
  have hlength := monthLength_pos (isLeap (n / 12)) ((n % 12).toNat + 1)
  rw [isValid_iff]
  unfold ofMonthCount
  dsimp only
  omega

theorem monthCount_ofMonthCount (n : Int) : (ofMonthCount n).monthCount = n := by
  unfold monthCount ofMonthCount
  dsimp only
  omega

/-- Of two months the later one has later days. -/
theorem toDays_lt_of_monthCount_lt {d e : Date} (hd : d.isValid = true) (he : e.isValid = true)
    (h : d.monthCount < e.monthCount) : d.toDays < e.toDays := by
  obtain ⟨hdm, hdm', -, hdl⟩ := (isValid_iff d).1 hd
  obtain ⟨hem, hem', he1, -⟩ := (isValid_iff e).1 he
  unfold monthCount at h
  by_cases hyear : d.year < e.year
  · exact toDays_lt_of_year_lt hd he hyear
  · have hyear : d.year = e.year := by omega
    have hmonth := ordinal_lt_of_month_lt hdm (show d.month < e.month by omega) hdl
    unfold toDays ordinal
    rw [← hyear]
    omega

/-- The first of a month is the first of its days. -/
theorem toDays_ofMonthCount_le {d : Date} (hd : d.isValid = true) {n : Int}
    (h : n ≤ d.monthCount) : (ofMonthCount n).toDays ≤ d.toDays := by
  rcases Int.lt_or_eq_of_le h with hlt | rfl
  · apply Int.le_of_lt
    apply toDays_lt_of_monthCount_lt (isValid_ofMonthCount n) hd
    rwa [monthCount_ofMonthCount]
  · obtain ⟨hm, hm', hday, -⟩ := (isValid_iff d).1 hd
    have hyear : (d.year * 12 + d.month - 1) / 12 = d.year := by omega
    have hmonth : ((d.year * 12 + d.month - 1) % 12).toNat + 1 = d.month := by omega
    unfold toDays ordinal ofMonthCount monthCount
    dsimp only
    rw [hyear, hmonth]
    omega

theorem monthCount_lt_iff {d : Date} (hd : d.isValid = true) (n : Int) :
    d.monthCount < n ↔ d.toDays < (ofMonthCount n).toDays := by
  constructor
  · intro h
    apply toDays_lt_of_monthCount_lt hd (isValid_ofMonthCount n)
    rwa [monthCount_ofMonthCount]
  · intro h
    by_contra hge
    exact absurd (toDays_ofMonthCount_le hd (Int.not_lt.1 hge)) (Int.not_le.2 h)

/-- Months later, the first of a month is the first of a month. -/
theorem addMonths_ofMonthCount (k n : Int) :
    (ofMonthCount k).addMonths n = ofMonthCount (k + n) := by
  have hcount : (ofMonthCount k).year * 12 + (ofMonthCount k).month - 1 + n = k + n :=
    congrArg (· + n) (monthCount_ofMonthCount k)
  have hday : min 1 (monthLength (isLeap ((k + n) / 12)) (((k + n) % 12).toNat + 1)) = 1 :=
    Nat.min_eq_left (monthLength_pos _ _)
  unfold addMonths
  dsimp only
  rw [hcount]
  unfold ofMonthCount
  dsimp only
  rw [hday]

end Date

/-- The seconds from Monday to the first day of the count, for the unit that starts with Mondays. -/
def TimeUnit.lead : TimeUnit → Int
  | .week => 3 * secondsPerDay
  | _ => 0

/-- The seconds of a unit that is not counted in months. -/
def TimeUnit.seconds (u : TimeUnit) : Int :=
  u.millis / 1000

namespace Moment

/-- The seconds of a clock from `first` up to `past` make up a unit: it starts with `first` whatever
the clock shows, and with `past` the next one starts. -/
structure Spans (u : TimeUnit) (first past : Int) : Prop where
  lt : first < past
  start : ∀ t : Timestamp, first ≤ t.seconds → t.seconds < past → startOnWall t u = ⟨first, 0⟩
  start_past : startOnWall ⟨past, 0⟩ u = ⟨past, 0⟩
  next : (⟨past, 0⟩ : Timestamp).inRange = true → ∀ offset,
    (ofWall ⟨first, 0⟩ offset).next? u = ofWall? ⟨past, 0⟩ offset

/-- Units that are counted in months start with the first of a month. -/
theorem startOnWall_months {u : TimeUnit} {n : Nat} (hu : u.months? = some n) (t : Timestamp) :
    startOnWall t u = .ofDate (.ofMonthCount (t.date.monthCount / n * n)) 0 := by
  obtain ⟨hm, hm', -, -⟩ := (Date.isValid_iff _).1 t.isValid_date
  have hsame {d e : Date} (hy : d.year = e.year) (hmonth : d.month = e.month)
      (hday : d.day = e.day) : Timestamp.ofDate d 0 = .ofDate e 0 := by
    cases d
    cases e
    simp_all
  unfold Date.monthCount Date.ofMonthCount
  cases u with
  | year | quarter | month =>
    obtain rfl := Option.some.inj hu
    apply hsame
    · dsimp only
      omega
    · dsimp only
      omega
    · rfl
  | _ => cases hu

theorem date_ofMonthCount (n : Int) :
    (Timestamp.ofDate (.ofMonthCount n) 0).date = .ofMonthCount n :=
  Timestamp.date_ofDate (Date.isValid_ofMonthCount n) (by decide)

theorem ofDate_zero (d : Date) : Timestamp.ofDate d 0 = ⟨d.toDays * secondsPerDay, 0⟩ := by
  unfold Timestamp.ofDate
  rw [Int.natCast_zero, Int.add_zero]

theorem months_cases {u : TimeUnit} {n : Nat} (hu : u.months? = some n) :
    n = 1 ∨ n = 3 ∨ n = 12 := by
  cases u with
  | year | quarter | month =>
    obtain rfl := Option.some.inj hu
    decide
  | _ => cases hu

theorem year_of_inRange {d : Date} (hd : d.isValid = true)
    (h : (⟨d.toDays * secondsPerDay, 0⟩ : Timestamp).inRange = true) :
    Date.firstYear ≤ d.year ∧ d.year ≤ Date.lastYear := by
  unfold Timestamp.inRange secondsPerDay at h
  rw [Bool.and_eq_true, decide_eq_true_eq, decide_eq_true_eq] at h
  dsimp only at h
  constructor
  · by_contra hlt
    have hbefore : d.toDays < firstDay :=
      Date.toDays_lt_of_year_lt hd (by decide) (Int.not_le.1 hlt)
    omega
  · by_contra hlt
    have hbehind : lastDay < d.toDays :=
      Date.toDays_lt_of_year_lt (by decide) hd (Int.not_le.1 hlt)
    omega

theorem spans_months {u : TimeUnit} {n : Nat} (hu : u.months? = some n) (k : Int) :
    Spans u ((Date.ofMonthCount (k * n)).toDays * secondsPerDay)
      ((Date.ofMonthCount ((k + 1) * n)).toDays * secondsPerDay) := by
  have hn : 0 < (n : Int) := by
    have := months_cases hu
    omega
  have hnext : (k + 1) * n = k * n + n := by
    rw [Int.add_mul, Int.one_mul]
  -- a month lies in the span if its number, divided by that of the months, gives `k`
  have hstart {t : Timestamp} {j : Int} (hlow : j * n ≤ t.date.monthCount)
      (hhigh : t.date.monthCount < (j + 1) * n) :
      startOnWall t u = ⟨(Date.ofMonthCount (j * n)).toDays * secondsPerDay, 0⟩ := by
    have hdiv : t.date.monthCount / n = j := by
      rw [Int.ediv_eq_iff_of_pos hn]
      exact ⟨hlow, by rwa [Int.add_mul, Int.one_mul] at hhigh⟩
    rw [startOnWall_months hu, hdiv, ofDate_zero]
  refine ⟨?_, fun t hlow hhigh => ?_, ?_, fun hrange offset => ?_⟩
  -- the first month behind the span is a later one
  · have hlt : (Date.ofMonthCount (k * n)).toDays < (Date.ofMonthCount ((k + 1) * n)).toDays := by
      rw [← Date.monthCount_lt_iff (Date.isValid_ofMonthCount _), Date.monthCount_ofMonthCount]
      omega
    unfold secondsPerDay
    omega
  -- days in the span are days of its months
  · have hday := t.toDays_date
    unfold secondsPerDay at hday hlow hhigh
    apply hstart
    · by_contra hlt
      rw [Int.not_le, Date.monthCount_lt_iff t.isValid_date] at hlt
      omega
    · rw [Date.monthCount_lt_iff t.isValid_date]
      omega
  -- the first day behind the span is of the first month behind it
  · rw [← ofDate_zero]
    conv_rhs => rw [ofDate_zero]
    apply hstart
    · rw [date_ofMonthCount, Date.monthCount_ofMonthCount]
    · rw [date_ofMonthCount, Date.monthCount_ofMonthCount, Int.add_mul (k + 1), Int.one_mul]
      omega
  -- as many months later than the first day, at the same time
  · have hyear := year_of_inRange (Date.isValid_ofMonthCount _) hrange
    have hsecond : (Timestamp.ofDate (.ofMonthCount (k * n)) 0).secondOfDay = 0 :=
      Timestamp.secondOfDay_ofDate _ (by decide)
    unfold next?
    rw [hu]
    unfold addMonths?
    dsimp only
    rw [wall_ofWall, ← ofDate_zero, date_ofMonthCount, Date.addMonths_ofMonthCount, ← hnext,
      if_pos hyear, Timestamp.withDate, hsecond, Int.natCast_zero, Int.add_zero]
    rfl

/-- The other units start after a whole number of them from a Monday on. -/
theorem startOnWall_seconds {u : TimeUnit} (hu : u.months? = none) (hms : u ≠ .millisecond)
    (t : Timestamp) :
    startOnWall t u = ⟨t.seconds - (t.seconds + u.lead) % u.seconds, 0⟩ := by
  have hdays := t.toDays_date
  cases u with
  | year | quarter | month => cases hu
  | millisecond => exact absurd rfl hms
  | week =>
    -- the day 0 of the count is a Thursday
    unfold startOnWall Date.weekday
    dsimp only
    rw [hdays, Timestamp.mk.injEq]
    refine ⟨?_, rfl⟩
    show _ = t.seconds - (t.seconds + 3 * secondsPerDay) % (604800000 / 1000)
    unfold secondsPerDay
    omega
  | day | hour | minute | second =>
    unfold startOnWall Timestamp.ofDate Timestamp.hour Timestamp.minute Timestamp.secondOfDay
    rw [hdays, Timestamp.mk.injEq]
    refine ⟨?_, rfl⟩
    unfold TimeUnit.lead TimeUnit.seconds TimeUnit.millis secondsPerDay
    dsimp only
    omega

theorem next?_ofWall {u : TimeUnit} (hu : u.months? = none) (hms : u ≠ .millisecond) (first : Int)
    (offset : Int) :
    (ofWall ⟨first, 0⟩ offset).next? u = ofWall? ⟨first + u.seconds, 0⟩ offset := by
  have hmillis : (⟨first - offset, 0⟩ : Timestamp).addMillis u.millis =
      ⟨first + u.seconds - offset, 0⟩ := by
    have hleap : ¬(⟨first - offset, 0⟩ : Timestamp).HasLeapSecond :=
      (Timestamp.not_hasLeapSecond_iff _).2 (show 0 < nanosPerSecond by decide)
    refine Timestamp.addMillis_of_toNanos hleap (by decide) ?_
    unfold Timestamp.toNanos TimeUnit.seconds nanosPerSecond
    cases u with
    | year | quarter | month => cases hu
    | millisecond => exact absurd rfl hms
    | _ =>
      unfold TimeUnit.millis
      dsimp only
      omega
  cases u with
  | year | quarter | month => cases hu
  | millisecond => exact absurd rfl hms
  -- whole days are added to the date on the clock, shorter units to the moment
  | week | day =>
    show ofWall? { (ofWall ⟨first, 0⟩ offset).wall with seconds := _ } offset = _
    rw [wall_ofWall]
    rfl
  | hour | minute | second =>
    show ({ ofWall ⟨first, 0⟩ offset with utc := _ } : Moment).inRange? = _
    unfold ofWall
    dsimp only
    rw [hmillis]
    rfl

theorem seconds_pos {u : TimeUnit} (hu : u.months? = none) (hms : u ≠ .millisecond) :
    0 < u.seconds := by
  cases u with
  | year | quarter | month => cases hu
  | millisecond => exact absurd rfl hms
  | _ => decide

theorem spans_seconds {u : TimeUnit} (hu : u.months? = none) (hms : u ≠ .millisecond) {first : Int}
    (hfirst : (first + u.lead) % u.seconds = 0) : Spans u first (first + u.seconds) := by
  have hpos := seconds_pos hu hms
  refine ⟨Int.lt_add_of_pos_right _ hpos, fun t hlow hhigh => ?_, ?_,
    fun _ offset => next?_ofWall hu hms first offset⟩
  · have hrest : (t.seconds + u.lead) % u.seconds = t.seconds - first := by
      have hsplit : t.seconds + u.lead = (t.seconds - first) + (first + u.lead) := by omega
      rw [hsplit, Int.add_emod, hfirst, Int.add_zero, Int.emod_emod_of_dvd _ (Int.dvd_refl _)]
      exact Int.emod_eq_of_lt (by omega) (by omega)
    rw [startOnWall_seconds hu hms, hrest, Int.sub_sub_self]
  · have hrest : (first + u.seconds + u.lead) % u.seconds = 0 := by
      rw [Int.add_right_comm, Int.add_emod_right, hfirst]
    rw [startOnWall_seconds hu hms, hrest, Int.sub_zero]

theorem toDays_firstOfYear (year : Int) :
    (Date.ofMonthCount (year * 12)).toDays = Date.toDays ⟨year, 1, 1⟩ := by
  have hyear : year * 12 / 12 = year := Int.mul_ediv_cancel _ (by decide)
  have hmonth : (year * 12 % 12).toNat = 0 := by omega
  unfold Date.ofMonthCount
  rw [hyear, hmonth]

theorem toDays_firstOfYear_le {d : Date} (hd : d.isValid = true) :
    Date.toDays ⟨d.year, 1, 1⟩ ≤ d.toDays ∧ d.toDays < Date.toDays ⟨d.year + 1, 1, 1⟩ := by
  obtain ⟨hm, hm', -, -⟩ := (Date.isValid_iff d).1 hd
  refine ⟨Date.toDays_le_of_year_le hd le_rfl, ?_⟩
  rw [← toDays_firstOfYear, ← Date.monthCount_lt_iff hd]
  unfold Date.monthCount
  omega

/-- Every time lies in a span of a unit, which reaches no further than a week beyond the year. -/
theorem exists_spans {u : TimeUnit} (hms : u ≠ .millisecond) (t : Timestamp) :
    ∃ first past, Spans u first past ∧ first ≤ t.seconds ∧ t.seconds < past ∧
      (Date.toDays ⟨t.date.year, 1, 1⟩ - 7) * secondsPerDay < first ∧
      past ≤ (Date.toDays ⟨t.date.year + 1, 1, 1⟩ + 7) * secondsPerDay := by
  have hday := t.toDays_date
  have hyear := toDays_firstOfYear_le t.isValid_date
  unfold secondsPerDay at *
  cases hu : u.months? with
  | some n =>
    have hn := months_cases hu
    obtain ⟨hm, hm', -, -⟩ := (Date.isValid_iff _).1 t.isValid_date
    have hcount : t.date.monthCount = t.date.year * 12 + t.date.month - 1 := rfl
    have hpos : 0 < (n : Int) := by omega
    have hlow := Int.ediv_mul_le t.date.monthCount (Int.ne_of_gt hpos)
    have hhigh := Int.lt_ediv_add_one_mul_self t.date.monthCount hpos
    have hspan := spans_months hu (t.date.monthCount / n)
    have hfirst := Date.toDays_ofMonthCount_le t.isValid_date hlow
    rw [Date.monthCount_lt_iff t.isValid_date] at hhigh
    -- the months of a year are a whole number of spans
    have hyearFirst : (Date.ofMonthCount (t.date.year * 12)).toDays ≤
        (Date.ofMonthCount (t.date.monthCount / n * n)).toDays := by
      apply Date.toDays_ofMonthCount_le (Date.isValid_ofMonthCount _)
      rw [Date.monthCount_ofMonthCount]
      rcases hn with rfl | rfl | rfl <;> omega
    have hyearPast : (Date.ofMonthCount ((t.date.monthCount / n + 1) * n)).toDays ≤
        (Date.ofMonthCount ((t.date.year + 1) * 12)).toDays := by
      apply Date.toDays_ofMonthCount_le (Date.isValid_ofMonthCount _)
      rw [Date.monthCount_ofMonthCount]
      rcases hn with rfl | rfl | rfl <;> omega
    rw [toDays_firstOfYear] at hyearFirst hyearPast
    exact ⟨_, _, hspan, by unfold secondsPerDay; omega, by unfold secondsPerDay; omega,
      by unfold secondsPerDay; omega, by unfold secondsPerDay; omega⟩
  | none =>
    -- what is left behind a whole number of units is less than one, and no unit exceeds a week
    have hpos := seconds_pos hu hms
    have hrest := Int.emod_nonneg (t.seconds + u.lead) (Int.ne_of_gt hpos)
    have hrest' := Int.emod_lt_of_pos (t.seconds + u.lead) hpos
    have hlong : u.seconds ≤ 7 * 86400 := by
      cases u <;> decide
    have hfirst : (t.seconds - (t.seconds + u.lead) % u.seconds + u.lead) % u.seconds = 0 := by
      rw [sub_add_eq_add_sub]
      exact Int.emod_eq_zero_of_dvd Int.dvd_self_sub_emod
    exact ⟨_, _, spans_seconds hu hms hfirst, by omega, by omega, by omega, by omega⟩

/-- Neither in the first year of the calendar nor in the last one. -/
def IsAway (m : Moment) : Prop :=
  Date.firstYear < m.wall.date.year ∧ m.wall.date.year < Date.lastYear

/-- Seconds of a clock that have a date wherever the clock is. -/
def HasDate (s : Int) : Prop :=
  (firstDay + 1) * secondsPerDay ≤ s ∧ s ≤ lastDay * secondsPerDay

theorem ofWall_wall (m : Moment) : ofWall m.wall m.offset = m := by
  unfold ofWall wall
  dsimp only
  rw [Int.add_sub_cancel]

theorem ofWall?_of_hasDate {offset : Int} (hnear : offset.natAbs < 86400) {s : Int}
    (hs : HasDate s) (nanos : Nat) :
    ofWall? ⟨s, nanos⟩ offset = some (ofWall ⟨s, nanos⟩ offset) := by
  unfold HasDate secondsPerDay at hs
  have hrange : (ofWall ⟨s, nanos⟩ offset).utc.inRange = true := by
    unfold Timestamp.inRange ofWall secondsPerDay
    rw [Bool.and_eq_true, decide_eq_true_eq, decide_eq_true_eq]
    dsimp only
    omega
  unfold ofWall? inRange?
  rw [if_pos hrange]

theorem inRange_of_hasDate {s : Int} (hs : HasDate s) : (⟨s, 0⟩ : Timestamp).inRange = true := by
  unfold HasDate secondsPerDay at hs
  unfold Timestamp.inRange secondsPerDay
  rw [Bool.and_eq_true, decide_eq_true_eq, decide_eq_true_eq]
  dsimp only
  omega

theorem exists_spans_hasDate {u : TimeUnit} (hms : u ≠ .millisecond) {m : Moment}
    (haway : m.IsAway) : ∃ first past, Spans u first past ∧ first ≤ m.wall.seconds ∧
      m.wall.seconds < past ∧ HasDate first ∧ HasDate past := by
  obtain ⟨first, past, hspan, hlow, hhigh, hfirst, hpast⟩ := exists_spans hms m.wall
  obtain ⟨hyear, hyear'⟩ := haway
  have hvalid (year : Int) : Date.isValid ⟨year, 1, 1⟩ = true := by
    rw [Date.isValid_iff]
    exact ⟨le_rfl, Nat.le_add_left 1 11, le_rfl, monthLength_pos _ _⟩
  have hstart : Date.toDays ⟨Date.firstYear + 1, 1, 1⟩ ≤ Date.toDays ⟨m.wall.date.year, 1, 1⟩ :=
    Date.toDays_le_of_year_le (hvalid _) hyear
  have hend : Date.toDays ⟨m.wall.date.year + 1, 1, 1⟩ ≤ Date.toDays ⟨Date.lastYear, 1, 1⟩ :=
    Date.toDays_le_of_year_le (hvalid _) hyear'
  -- a year away from the ends of the calendar there is more than the week that may be needed
  have hfirstDay : Date.toDays ⟨Date.firstYear + 1, 1, 1⟩ = firstDay + 365 := by decide
  have hlastDay : Date.toDays ⟨Date.lastYear, 1, 1⟩ = lastDay - 364 := by decide
  have hlt := hspan.lt
  unfold secondsPerDay at hfirst hpast
  refine ⟨first, past, hspan, hlow, hhigh, ?_, ?_⟩
  · unfold HasDate secondsPerDay
    omega
  · unfold HasDate secondsPerDay
    omega

section

variable {u : TimeUnit} {first past offset : Int} (hms : u ≠ .millisecond) (h : Spans u first past)
  (hnear : offset.natAbs < 86400) (hfirst : HasDate first) (hpast : HasDate past)

include hms h hnear hfirst

theorem startOf?_of_spans {t : Timestamp} (hlow : first ≤ t.seconds) (hhigh : t.seconds < past) :
    (ofWall t offset).startOf? u = some (ofWall ⟨first, 0⟩ offset) := by
  rw [startOf?, if_neg hms, wall_ofWall, h.start t hlow hhigh]
  exact ofWall?_of_hasDate hnear hfirst 0

include hpast

theorem endOf?_of_spans {t : Timestamp} (hlow : first ≤ t.seconds) (hhigh : t.seconds < past) :
    (ofWall t offset).endOf? u = some (ofWall ⟨past - 1, 999_000_000⟩ offset) := by
  have hleap : ¬(⟨past - offset, 0⟩ : Timestamp).HasLeapSecond :=
    (Timestamp.not_hasLeapSecond_iff _).2 (show 0 < nanosPerSecond by decide)
  have hback : (⟨past - offset, 0⟩ : Timestamp).addMillis (-1) =
      ⟨past - 1 - offset, 999_000_000⟩ := by
    refine Timestamp.addMillis_of_toNanos hleap (by decide) ?_
    unfold Timestamp.toNanos nanosPerSecond
    dsimp only
    omega
  have hdate : HasDate (past - 1) := by
    have hlt := h.lt
    unfold HasDate at *
    omega
  rw [endOf?, if_neg hms, startOf?_of_spans hms h hnear hfirst hlow hhigh]
  show ((ofWall ⟨first, 0⟩ offset).next? u).bind (·.addMillis? (-1)) = _
  rw [h.next (inRange_of_hasDate hpast), ofWall?_of_hasDate hnear hpast]
  show ({ utc := (⟨past - offset, 0⟩ : Timestamp).addMillis (-1), offset } : Moment).inRange? = _
  rw [hback]
  exact ofWall?_of_hasDate hnear hdate 999_000_000

end

/-- A millisecond behind the end of a span the next one starts. -/
theorem addMillis?_end {u : TimeUnit} {first past offset : Int} (hms : u ≠ .millisecond)
    (h : Spans u first past) (hnear : offset.natAbs < 86400) (hpast : HasDate past) :
    (ofWall ⟨past - 1, 999_000_000⟩ offset).addMillis? 1 = some (ofWall ⟨past, 0⟩ offset) ∧
      (ofWall ⟨past, 0⟩ offset).startOf? u = some (ofWall ⟨past, 0⟩ offset) := by
  have hleap : ¬(⟨past - 1 - offset, 999_000_000⟩ : Timestamp).HasLeapSecond :=
    (Timestamp.not_hasLeapSecond_iff _).2 (show 999_000_000 < nanosPerSecond by decide)
  have hforth : (⟨past - 1 - offset, 999_000_000⟩ : Timestamp).addMillis 1 =
      ⟨past - offset, 0⟩ := by
    refine Timestamp.addMillis_of_toNanos hleap (by decide) ?_
    unfold Timestamp.toNanos nanosPerSecond
    dsimp only
    omega
  constructor
  · show ({ utc := (⟨past - 1 - offset, 999_000_000⟩ : Timestamp).addMillis 1, offset } :
      Moment).inRange? = _
    rw [hforth]
    exact ofWall?_of_hasDate hnear hpast 0
  · rw [startOf?, if_neg hms, wall_ofWall, h.start_past]
    exact ofWall?_of_hasDate hnear hpast 0

end Moment

end Workflow.Time
