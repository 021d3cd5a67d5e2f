import Mathlib.Data.List.Iterate
import Mathlib.Tactic.Ring
import Workflow.Proofs.Schedule.CanFire
import Workflow.Proofs.Time.LeapSecond
import Workflow.Schedule.Forecast

/-! A forecast holds the first minutes at which its schedule fires, no matter how they are searched
for, unless it starts inside a leap second. -/
namespace Workflow.Time.Timestamp

/-- Whether the nanoseconds since 1970 fit a word of 64 bits. -/
def FitsWord (t : Timestamp) : Prop :=
  -0x8000_0000_0000_0000 ≤ t.toNanos ∧ t.toNanos < 0x8000_0000_0000_0000

/-- The start of the minute behind the one that a time lies in. -/
def nextMinute (t : Timestamp) : Timestamp :=
  { seconds := (t.seconds / 60 + 1) * 60, nanos := 0 }

theorem isMinute_nextMinute (t : Timestamp) : t.nextMinute.IsMinute :=
  ⟨Int.mul_emod_left _ _, rfl⟩

end Workflow.Time.Timestamp

namespace Workflow.Schedule

open Time

theorem startOfMinute_addSeconds {t : Timestamp} (h : t.nanos < nanosPerSecond) (hf : t.FitsWord) :
    (startOfMinute t).addSeconds 60 = t.nextMinute := by
  have hzero : 0 < nanosPerSecond := by decide
  have hstart : startOfMinute t = ⟨t.seconds / 60 * 60, 0⟩ := by
    unfold startOfMinute
    unfold Timestamp.FitsWord at hf
    dsimp only
    rw [if_pos hf]
    unfold Timestamp.addNanos
    rw [if_pos h, ← Timestamp.ofNanos_eq _ 0 hzero]
    congr 1
    unfold Timestamp.toNanos nanosPerSecond at *
    push_cast
    omega
  rw [hstart, Timestamp.addSeconds_eq hzero]
  unfold Timestamp.nextMinute
  simp only [Timestamp.mk.injEq, and_true]
  ring

/-- From a leap second on minutes are counted from the second before it. -/
theorem startOfMinute_addSeconds_of_leap {t : Timestamp} (hw : t.WellFormed)
    (h : t.HasLeapSecond) (hf : t.FitsWord) :
    (startOfMinute t).addSeconds 60 = ⟨t.seconds + 60, 0⟩ := by
  have hsecond := hw.2 h
  obtain ⟨k, hk⟩ := Nat.exists_eq_add_of_le h
  have hklt : k < nanosPerSecond := by
    have := hw.1
    omega
  have hpast : t.toNanos % (60 * nanosPerSecond) = k := by
    unfold Timestamp.toNanos
    rw [hk]
    unfold nanosPerSecond at *
    push_cast
    omega
  have hstart : startOfMinute t = ⟨t.seconds, nanosPerSecond⟩ := by
    unfold startOfMinute
    unfold Timestamp.FitsWord at hf
    dsimp only
    rw [if_pos hf, hpast]
    unfold Timestamp.addNanos
    -- less than a second is taken off, which does not lead out of the leap second
    have hdiv : (-(k : Int)).tdiv nanosPerSecond = 0 := by
      rw [Int.neg_tdiv, Int.tdiv_eq_zero_of_lt (by omega) (by exact_mod_cast hklt), neg_zero]
    have hmod : (-(k : Int)).tmod nanosPerSecond = -k := by
      rw [Int.neg_tmod, Int.tmod_eq_of_lt (by omega) (by exact_mod_cast hklt)]
    dsimp only
    rw [if_neg (by omega), hdiv, hmod, if_neg (by omega), if_neg (by omega)]
    simp only [Timestamp.mk.injEq, true_and]
    omega
  have hdouble : nanosPerSecond < 2 * nanosPerSecond := by decide
  rw [hstart, Timestamp.addSeconds_of_leap (lt_irrefl _) hdouble (by decide), Nat.sub_self]

/-- The times that follow one another a minute apart. -/
def minutesFrom (t : Timestamp) (n : Nat) : List Timestamp :=
  (List.range n).map fun i : Nat => t.addSeconds (60 * i)

theorem searchLoop_eq (p : Timestamp → Bool) (tries count : Nat) (t : Timestamp)
    (found : List Timestamp) :
    searchLoop p tries count t found =
      found.reverse ++ ((List.iterate (·.addSeconds 60) t tries).filter p).take count := by
  induction tries generalizing count t found with
  | zero =>
    unfold searchLoop
    simp only [List.iterate, List.filter_nil, List.take_nil, List.append_nil]
  | succ tries ih =>
    unfold searchLoop
    cases count with
    | zero => simp only [List.take_zero, List.append_nil]
    | succ count =>
      dsimp only [List.iterate]
      by_cases hp : p t = true
      · rw [if_pos hp, ih, List.filter_cons_of_pos hp]
        simp only [List.reverse_cons, List.append_assoc, List.cons_append, List.nil_append,
          List.take_succ_cons]
      · rw [if_neg hp, ih, List.filter_cons_of_neg hp]

theorem iterate_eq_minutesFrom {t : Timestamp} (h : t.nanos < nanosPerSecond) (n : Nat) :
    List.iterate (·.addSeconds 60) t n = minutesFrom t n := by
  induction n generalizing t with
  | zero => rfl
  | succ n ih =>
    have hnext : (t.addSeconds 60).nanos < nanosPerSecond := by
      rw [Timestamp.addSeconds_eq h]
      exact h
    have hstep (i : Nat) : (t.addSeconds 60).addSeconds (60 * i) =
        t.addSeconds (60 * (i + 1 : Nat)) := by
      rw [Timestamp.addSeconds_eq hnext, Timestamp.addSeconds_eq h, Timestamp.addSeconds_eq h]
      simp only [Timestamp.mk.injEq, and_true]
      push_cast
      ring
    have hzero : t = t.addSeconds (60 * (0 : Nat)) := by
      rw [Timestamp.addSeconds_eq h]
      simp
    simp only [List.iterate, ih hnext]
    unfold minutesFrom
    rw [List.range_succ_eq_map, List.map_cons, List.map_map, ← hzero]
    congr 1
    exact List.map_congr_left fun i _ => hstep i

theorem mem_minutesFrom {t u : Timestamp} {n : Nat} (ht : t.IsMinute) (hu : u ∈ minutesFrom t n) :
    u.IsMinute ∧ t.seconds ≤ u.seconds := by
  obtain ⟨i, _, rfl⟩ := List.mem_map.mp hu
  have hnanos : t.nanos < nanosPerSecond := by
    rw [ht.2]
    decide
  have hminute := ht.1
  rw [Timestamp.addSeconds_eq hnanos]
  refine ⟨⟨?_, ht.2⟩, ?_⟩ <;> dsimp only <;> omega

theorem pairwise_minutesFrom {t : Timestamp} (ht : t.IsMinute) (n : Nat) :
    (minutesFrom t n).Pairwise fun u v => u.seconds < v.seconds := by
  have hnanos : t.nanos < nanosPerSecond := by
    rw [ht.2]
    decide
  unfold minutesFrom
  rw [List.pairwise_map]
  refine List.pairwise_lt_range.imp fun {i j} hij => ?_
  rw [Timestamp.addSeconds_eq hnanos, Timestamp.addSeconds_eq hnanos]
  dsimp only
  omega

/-- The times at which a schedule fires on the clocks of a zone, of `n` times a minute apart. -/
def Cron.matchesFrom (c : Cron) (zone : Zone) (t : Timestamp) (n : Nat) : List Timestamp :=
  (minutesFrom t n).filter fun t => c.firesAt (zone.convert t).wall

/-- What a forecast promises: the first `count` whole minutes behind the start at which the schedule
fires, of as many minutes as are searched, and whether there were fewer. -/
structure ExactForecast (zone : Zone) (s : List Char) (count : Nat) (start : Timestamp)
    (factor : Nat) : Prop where
  times : ∀ c, Cron.parse s = .ok c →
    (forecast zone s count start factor).executions.map Execution.time =
      (c.matchesFrom zone start.nextMinute (count * max factor 1)).take count
  horizon : ∀ c, Cron.parse s = .ok c →
    ((forecast zone s count start factor).horizonReached = true ↔
      (c.matchesFrom zone start.nextMinute (count * max factor 1)).length < count)
  increasing : ((forecast zone s count start factor).executions.map Execution.time).Pairwise
    fun t u => t.seconds < u.seconds
  behind : ∀ t ∈ (forecast zone s count start factor).executions.map Execution.time,
    t.IsMinute ∧ start.toNanos < t.toNanos
  empty : (∀ c, Cron.parse s ≠ .ok c) ∨ count = 0 → forecast zone s count start factor = {}

theorem Cron.matchesFrom_eq_nil {c : Cron} (h : c.canFire = false) (zone : Zone) (t : Timestamp)
    (n : Nat) : c.matchesFrom zone t n = [] := by
  unfold matchesFrom
  rw [List.filter_eq_nil_iff]
  intro u _ hf
  rw [canFire_of_firesAt hf] at h
  exact Bool.noConfusion h

theorem forecast_zero (zone : Zone) (s : List Char) (start : Timestamp) (factor : Nat) :
    forecast zone s 0 start factor = {} := by
  unfold forecast
  cases Cron.parse s <;> rfl

/-- The answer of the loop, which the answer for schedules that never fire agrees with. -/
theorem forecast_times {c : Cron} {s : List Char} (hc : Cron.parse s = .ok c) (zone : Zone)
    (count : Nat) (start : Timestamp) (factor : Nat) {first : Timestamp}
    (hfirst : (startOfMinute start).addSeconds 60 = first) (hnanos : first.nanos < nanosPerSecond)
    (hn : count * max factor 1 < 2 ^ 64) :
    (forecast zone s count start factor).executions.map Execution.time =
        (c.matchesFrom zone first (count * max factor 1)).take count ∧
      (forecast zone s count start factor).horizonReached =
        decide ((c.matchesFrom zone first (count * max factor 1)).length < count) := by
  have hhorizon : horizon count factor = count * max factor 1 := by
    unfold horizon
    omega
  have hsearch : search (fun t => c.firesAt (zone.convert t).wall) (horizon count factor) count
      first = (c.matchesFrom zone first (count * max factor 1)).take count := by
    unfold search Cron.matchesFrom
    rw [searchLoop_eq, iterate_eq_minutesFrom hnanos, hhorizon, List.reverse_nil, List.nil_append]
  by_cases hcount : count = 0
  · rw [hcount, forecast_zero]
    exact ⟨rfl, rfl⟩
  · unfold forecast
    rw [hc]
    dsimp only
    rw [if_neg hcount]
    -- a schedule that can never fire is not searched for, and has nothing to find
    by_cases hfire : c.canFire = true
    · rw [if_neg (by rw [hfire]; decide), hfirst]
      dsimp only
      rw [hsearch, List.map_map, List.length_take]
      refine ⟨List.map_id _, ?_⟩
      rw [decide_eq_decide]
      omega
    · rw [Bool.not_eq_true] at hfire
      rw [if_pos (by rw [hfire]; rfl), c.matchesFrom_eq_nil hfire]
      have hpos : 0 < count := Nat.pos_of_ne_zero hcount
      simp only [List.map_nil, List.take_nil, List.length_nil, hpos, decide_true, true_and]

theorem nanos_nextMinute (t : Timestamp) : t.nextMinute.nanos < nanosPerSecond := by
  change 0 < nanosPerSecond
  decide

theorem toNanos_lt_of_nextMinute_le {t u : Timestamp} (ht : t.nanos < nanosPerSecond)
    (h : t.nextMinute.seconds ≤ u.seconds) : t.toNanos < u.toNanos := by
  unfold Timestamp.toNanos Timestamp.nextMinute nanosPerSecond at *
  dsimp only at h
  omega

theorem lt_of_inRange {start : Timestamp} (hf : start.FitsWord)
    (hnanos : start.nanos < nanosPerSecond) {n : Nat}
    (hr : (start.nextMinute.addSeconds (60 * n)).inRange = true) : n < 2 ^ 64 := by
  have hlast : lastDay = 95026236 := by decide
  rw [Timestamp.addSeconds_eq (nanos_nextMinute start)] at hr
  simp only [Timestamp.inRange, Bool.and_eq_true, decide_eq_true_eq, hlast, secondsPerDay] at hr
  unfold Timestamp.FitsWord Timestamp.toNanos at hf
  unfold Timestamp.nextMinute at hr
  unfold nanosPerSecond at *
  dsimp only at hr
  omega

theorem exactForecast_of_no_leap {start : Timestamp} (hf : start.FitsWord)
    (hnanos : start.nanos < nanosPerSecond) (zone : Zone) (s : List Char) (count factor : Nat)
    (hr : (start.nextMinute.addSeconds (60 * (count * max factor 1 : Nat))).inRange = true) :
    ExactForecast zone s count start factor := by
  have hfirst := startOfMinute_addSeconds hnanos hf
  have htimes (c : Cron) (hc : Cron.parse s = .ok c) :=
    forecast_times hc zone count start factor hfirst (nanos_nextMinute start)
      (lt_of_inRange hf hnanos hr)
  have hempty (h : ∀ c, Cron.parse s ≠ .ok c) : forecast zone s count start factor = {} := by
    unfold forecast
    cases hc : Cron.parse s with
    | error => rfl
    | ok c => exact absurd hc (h c)
  -- what holds of all minutes of the window holds of those that the forecast picks
  have hpicked : ((forecast zone s count start factor).executions.map Execution.time).Sublist
      (minutesFrom start.nextMinute (count * max factor 1)) := by
    by_cases h : ∃ c, Cron.parse s = .ok c
    · obtain ⟨c, hc⟩ := h
      rw [(htimes c hc).1]
      exact (List.take_sublist _ _).trans List.filter_sublist
    · rw [hempty (not_exists.mp h)]
      exact List.nil_sublist _
  refine ⟨fun c hc => (htimes c hc).1, fun c hc => ?_, ?_, fun t ht => ?_, ?_⟩
  · rw [(htimes c hc).2, decide_eq_true_eq]
  · exact (pairwise_minutesFrom start.isMinute_nextMinute _).sublist hpicked
  · have hmem := mem_minutesFrom start.isMinute_nextMinute (hpicked.subset ht)
    exact ⟨hmem.1, toNanos_lt_of_nextMinute_le hnanos hmem.2⟩
  · rintro (h | rfl)
    · exact hempty h
    · exact forecast_zero _ _ _ _

/-- The schedule of every minute. -/
def everyMinute : List Char :=
  "* * * * *".toList

theorem parse_everyMinute : Cron.parse everyMinute = .ok ⟨.any, .any, .any, .any, .any⟩ := by
  decide

theorem firesAt_any (t : Timestamp) :
    Cron.firesAt ⟨.any, .any, .any, .any, .any⟩ t = true := by
  rw [Cron.firesAt_iff]
  intro f
  cases f <;> rfl

/-- Behind a leap second the minutes of a forecast end with second 59. -/
theorem forecast_of_leap {start : Timestamp} (hw : start.WellFormed) (hf : start.FitsWord)
    (h : start.HasLeapSecond) :
    (forecast .utc everyMinute 1 start 1).executions.map Execution.time =
      [⟨start.seconds + 60, 0⟩] := by
  have hzero : 0 < nanosPerSecond := by decide
  have htimes := (forecast_times parse_everyMinute .utc 1 start 1
    (startOfMinute_addSeconds_of_leap hw h hf) hzero (by decide)).1
  rw [htimes]
  have hone : minutesFrom ⟨start.seconds + 60, 0⟩ (1 * max 1 1) = [⟨start.seconds + 60, 0⟩] := by
    change [Timestamp.addSeconds _ _] = _
    rw [Timestamp.addSeconds_eq hzero]
    simp
  unfold Cron.matchesFrom
  simp only [hone, firesAt_any]
  rfl

theorem not_exactForecast_of_leap {start : Timestamp} (hw : start.WellFormed)
    (hf : start.FitsWord) (h : start.HasLeapSecond) :
    ¬ExactForecast .utc everyMinute 1 start 1 := by
  intro hexact
  have hbehind := hexact.behind ⟨start.seconds + 60, 0⟩
  rw [forecast_of_leap hw hf h] at hbehind
  have hminute := (hbehind (List.mem_singleton_self _)).1.1
  have hsecond := hw.2 h
  dsimp only at hminute
  omega

theorem inRange_of_fitsWord {start : Timestamp} (hw : start.WellFormed) (hf : start.FitsWord) :
    (start.nextMinute.addSeconds 60).inRange = true := by
  have hfirst : firstDay = -96465292 := by decide
  have hlast : lastDay = 95026236 := by decide
  have hnanos := hw.1
  rw [Timestamp.addSeconds_eq (nanos_nextMinute start)]
  simp only [Timestamp.inRange, Bool.and_eq_true, decide_eq_true_eq, hfirst, hlast, secondsPerDay]
  unfold Timestamp.FitsWord Timestamp.toNanos at hf
  unfold Timestamp.nextMinute
  unfold nanosPerSecond at *
  dsimp only
  omega

/-- Forecasts from a time are exact, for all zones, schedules, counts and factors whose minutes have
dates, if and only if it does not lie in a leap second. -/
theorem exactForecast_iff_no_leap (start : Timestamp) (hw : start.WellFormed)
    (hf : start.FitsWord) :
    (∀ (zone : Zone) (s : List Char) (count factor : Nat),
      (start.nextMinute.addSeconds (60 * (count * max factor 1 : Nat))).inRange = true →
        ExactForecast zone s count start factor) ↔ ¬start.HasLeapSecond := by
  constructor
  · intro hexact hleap
    exact not_exactForecast_of_leap hw hf hleap
      (hexact .utc everyMinute 1 1 (inRange_of_fitsWord hw hf))
  · intro hleap zone s count factor hr
    exact exactForecast_of_no_leap hf (not_le.mp hleap) zone s count factor hr

theorem exactForecast_on_weekday_mornings :
    Timestamp.WellFormed ⟨1483228799, 500000000⟩ ∧ Timestamp.FitsWord ⟨1483228799, 500000000⟩ ∧
      ExactForecast (.fixed 7200) "0 9 * * 1-5".toList 3 ⟨1483228799, 500000000⟩ 1000 := by
  have hw : Timestamp.WellFormed ⟨1483228799, 500000000⟩ := ⟨by decide, by decide⟩
  have hf : Timestamp.FitsWord ⟨1483228799, 500000000⟩ := ⟨by decide, by decide⟩
  have hleap : ¬Timestamp.HasLeapSecond ⟨1483228799, 500000000⟩ := by
    unfold Timestamp.HasLeapSecond
    decide
  exact ⟨hw, hf, (exactForecast_iff_no_leap _ hw hf).mpr hleap _ _ 3 1000 (by decide)⟩

/-- Half a second into the leap second at the end of 2016, the next minute is said to start at
second 59. -/
theorem not_exactForecast_in_leap_second :
    ¬ExactForecast .utc everyMinute 1 ⟨1483228799, 1500000000⟩ 1 :=
  not_exactForecast_of_leap ⟨by decide, by decide⟩ ⟨by decide, by decide⟩
    (by unfold Timestamp.HasLeapSecond; decide)

end Workflow.Schedule
