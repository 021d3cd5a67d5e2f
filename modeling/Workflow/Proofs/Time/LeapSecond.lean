import Mathlib.Tactic.Ring
import Workflow.Time.Moment

/-! Moving points in time. Outside leap seconds amounts of time add up, inside of them they do
not. -/
namespace Workflow.Time.Timestamp

/-- A leap second only stands behind the last second of a minute. -/
def WellFormed (t : Timestamp) : Prop :=
  t.nanos < 2 * nanosPerSecond ∧ (nanosPerSecond ≤ t.nanos → t.seconds % 60 = 59)

def HasLeapSecond (t : Timestamp) : Prop :=
  nanosPerSecond ≤ t.nanos

theorem ofNanos_eq (s : Int) (k : Nat) (hk : k < nanosPerSecond) :
    ofNanos (s * nanosPerSecond + k) = ⟨s, k⟩ := by
  unfold ofNanos nanosPerSecond at *
  simp only [Timestamp.mk.injEq]
  omega

theorem addSeconds_eq {t : Timestamp} (h : t.nanos < nanosPerSecond) (n : Int) :
    t.addSeconds n = ⟨t.seconds + n, t.nanos⟩ := by
  unfold addSeconds addNanos
  rw [if_pos h, ← ofNanos_eq _ _ h]
  congr 1
  unfold toNanos
  ring

theorem addSeconds_of_leap {t : Timestamp} (h : ¬t.nanos < nanosPerSecond)
    (h2 : t.nanos < 2 * nanosPerSecond) {n : Int} (hn : 0 < n) :
    t.addSeconds n = ⟨t.seconds + n, t.nanos - nanosPerSecond⟩ := by
  have hwhole : (n * (nanosPerSecond : Int)).tdiv nanosPerSecond = n :=
    Int.mul_tdiv_cancel _ (by decide)
  unfold addSeconds addNanos
  rw [if_neg h]
  dsimp only
  rw [hwhole, if_pos (Or.inl hn), ← ofNanos_eq _ _ (by omega)]
  congr 1
  unfold toNanos
  push_cast [not_lt.mp h]
  ring

theorem nanos_ofNanos (n : Int) : (ofNanos n).nanos < nanosPerSecond := by
  unfold ofNanos nanosPerSecond
  dsimp only
  omega

theorem toNanos_ofNanos (n : Int) : (ofNanos n).toNanos = n := by
  unfold toNanos ofNanos nanosPerSecond
  dsimp only
  omega

theorem not_hasLeapSecond_iff (t : Timestamp) : ¬t.HasLeapSecond ↔ t.nanos < nanosPerSecond :=
  Nat.not_le

theorem addMillis_eq {t : Timestamp} (h : ¬t.HasLeapSecond) (n : Int) :
    t.addMillis n = ofNanos (t.toNanos + n * 1_000_000) := by
  rw [addMillis, addNanos, if_pos ((not_hasLeapSecond_iff t).1 h)]

/-- The second and its nanoseconds that lie so many milliseconds behind a point in time. -/
theorem addMillis_of_toNanos {t : Timestamp} (h : ¬t.HasLeapSecond) {n s : Int} {k : Nat}
    (hk : k < nanosPerSecond) (hsum : t.toNanos + n * 1_000_000 = s * nanosPerSecond + k) :
    t.addMillis n = ⟨s, k⟩ := by
  rw [addMillis_eq h, hsum, ofNanos_eq s k hk]

theorem not_hasLeapSecond_addMillis {t : Timestamp} (h : ¬t.HasLeapSecond) (n : Int) :
    ¬(t.addMillis n).HasLeapSecond := by
  rw [addMillis_eq h, not_hasLeapSecond_iff]
  exact nanos_ofNanos _

theorem addMillis_addMillis {t : Timestamp} (h : ¬t.HasLeapSecond) (a b : Int) :
    (t.addMillis a).addMillis b = t.addMillis (a + b) := by
  rw [addMillis_eq (not_hasLeapSecond_addMillis h a), addMillis_eq h, addMillis_eq h,
    toNanos_ofNanos]
  congr 1
  ring

theorem addMillis_zero {t : Timestamp} (h : ¬t.HasLeapSecond) : t.addMillis 0 = t :=
  addMillis_of_toNanos h ((not_hasLeapSecond_iff t).1 h) (by rw [toNanos]; ring)

/-- What lies between two points in time that have dates has a date. -/
theorem inRange_addMillis {t : Timestamp} (h : ¬t.HasLeapSecond) {low n high : Int}
    (hlow : (t.addMillis low).inRange = true) (hhigh : (t.addMillis high).inRange = true)
    (hle : low ≤ n) (hle' : n ≤ high) : (t.addMillis n).inRange = true := by
  rw [addMillis_eq h] at *
  unfold inRange ofNanos nanosPerSecond secondsPerDay at *
  simp only [Bool.and_eq_true, decide_eq_true_eq] at *
  omega

end Workflow.Time.Timestamp
