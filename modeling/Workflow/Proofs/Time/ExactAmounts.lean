import Workflow.Proofs.Number.Exact
import Workflow.Proofs.Time.LeapSecond
import Workflow.Time.Units

/-! Moving moments by whole amounts of units that are not counted in months. As long as doubles hold
the amounts, a moment is moved by just as many milliseconds as they come to. -/
namespace Workflow.Time

open Number

/-- Whole amounts of units. -/
abbrev WholeAmounts :=
  List (TimeUnit × Int)

/-- The milliseconds of an amount. -/
def millisOfAmount (p : TimeUnit × Int) : Int :=
  p.2 * (p.1.millis : Int)

namespace WholeAmounts

/-- The milliseconds that amounts come to. -/
def millis (a : WholeAmounts) : Int :=
  (a.map millisOfAmount).sum

/-- The milliseconds of the amounts that lead into the future. -/
def forth (a : WholeAmounts) : Int :=
  (a.map fun p => max 0 (millisOfAmount p)).sum

/-- The milliseconds of the amounts that lead into the past. -/
def back (a : WholeAmounts) : Int :=
  (a.map fun p => max 0 (-millisOfAmount p)).sum

def neg (a : WholeAmounts) : WholeAmounts :=
  a.map fun p => (p.1, -p.2)

/-- The amount of a unit. -/
def ofUnit (a : WholeAmounts) (u : TimeUnit) : Int :=
  ((a.filter (·.1 = u)).map (·.2)).sum

/-- The milliseconds of the amounts of some units. -/
def millisOf (a : WholeAmounts) (units : List TimeUnit) : Int :=
  millis (a.filter (·.1 ∈ units))

theorem millisOfAmount_neg (p : TimeUnit × Int) :
    millisOfAmount (p.1, -p.2) = -millisOfAmount p :=
  Int.neg_mul _ _

theorem forth_neg (a : WholeAmounts) : a.neg.forth = a.back := by
  unfold neg forth back
  simp only [List.map_map, Function.comp_def, millisOfAmount_neg]

theorem back_neg (a : WholeAmounts) : a.neg.back = a.forth := by
  unfold neg forth back
  simp only [List.map_map, Function.comp_def, millisOfAmount_neg, Int.neg_neg]

theorem millis_eq (a : WholeAmounts) : a.millis = a.forth - a.back := by
  unfold millis forth back
  induction a with
  | nil => rfl
  | cons p a ih =>
    simp only [List.map_cons, List.sum_cons]
    omega

theorem forth_nonneg (a : WholeAmounts) : 0 ≤ a.forth := by
  unfold forth
  induction a with
  | nil => exact Int.le_refl 0
  | cons p a ih =>
    simp only [List.map_cons, List.sum_cons]
    omega

theorem back_nonneg (a : WholeAmounts) : 0 ≤ a.back :=
  a.forth_neg ▸ a.neg.forth_nonneg

theorem millis_bounds (a : WholeAmounts) : -a.back ≤ a.millis ∧ a.millis ≤ a.forth := by
  have hforth := a.forth_nonneg
  have hback := a.back_nonneg
  rw [millis_eq]
  omega

theorem millis_neg (a : WholeAmounts) : a.neg.millis = -a.millis := by
  rw [millis_eq, millis_eq, forth_neg, back_neg, Int.neg_sub]

/-- Whatever amounts are left out, the others lead no further. -/
theorem millis_filter_bounds (a : WholeAmounts) (keep : TimeUnit × Int → Bool) :
    -a.back ≤ millis (a.filter keep) ∧ millis (a.filter keep) ≤ a.forth := by
  unfold millis forth back
  induction a with
  | nil => exact ⟨Int.le_refl 0, Int.le_refl 0⟩
  | cons p a ih =>
    rw [List.filter_cons]
    split
    · simp only [List.map_cons, List.sum_cons]
      omega
    · simp only [List.map_cons, List.sum_cons]
      omega

theorem millis_filter_unit (a : WholeAmounts) (u : TimeUnit) :
    millis (a.filter (·.1 = u)) = a.ofUnit u * u.millis := by
  unfold millis ofUnit
  induction a with
  | nil => exact (Int.zero_mul _).symm
  | cons p a ih =>
    rw [List.filter_cons]
    split
    · rename_i hp
      have hu : p.1 = u := of_decide_eq_true hp
      simp only [List.map_cons, List.sum_cons, ih, Int.add_mul]
      unfold millisOfAmount
      rw [hu]
    · exact ih

theorem millisOf_nil (a : WholeAmounts) : a.millisOf [] = 0 := by
  unfold millisOf
  simp only [List.not_mem_nil, decide_false, List.filter_false]
  rfl

theorem millisOf_all (a : WholeAmounts) : a.millisOf TimeUnit.all = a.millis := by
  have hall : ∀ u : TimeUnit, u ∈ TimeUnit.all := by
    intro u
    cases u <;> decide
  unfold millisOf
  rw [List.filter_eq_self.2 fun p _ => decide_eq_true (hall p.1)]

/-- Of a unit more there are its own milliseconds more. -/
theorem millisOf_append_singleton (a : WholeAmounts) {units : List TimeUnit} {u : TimeUnit}
    (hu : u ∉ units) : a.millisOf (units ++ [u]) = a.millisOf units + a.ofUnit u * u.millis := by
  rw [← millis_filter_unit]
  unfold millisOf millis
  induction a with
  | nil => rfl
  | cons p a ih =>
    simp only [List.filter_cons, List.mem_append, List.mem_singleton, decide_eq_true_eq] at *
    -- the first amount is of the unit itself, of one of the others, or left out on both sides
    by_cases hp : p.1 = u
    · have hnot : p.1 ∉ units := hp ▸ hu
      rw [if_pos (Or.inr hp), if_neg hnot, if_pos hp]
      simp only [List.map_cons, List.sum_cons, ih]
      omega
    · by_cases hmem : p.1 ∈ units
      · rw [if_pos (Or.inl hmem), if_pos hmem, if_neg hp]
        simp only [List.map_cons, List.sum_cons, ih]
        omega
      · rw [if_neg (not_or.2 ⟨hmem, hp⟩), if_neg hmem, if_neg hp]
        exact ih

theorem forth_append (a b : WholeAmounts) : forth (a ++ b) = a.forth + b.forth := by
  unfold forth
  rw [List.map_append, List.sum_append]

theorem back_append (a b : WholeAmounts) : back (a ++ b) = a.back + b.back := by
  unfold back
  rw [List.map_append, List.sum_append]

theorem ofUnit_append (a b : WholeAmounts) (u : TimeUnit) :
    ofUnit (a ++ b) u = a.ofUnit u + b.ofUnit u := by
  unfold ofUnit
  rw [List.filter_append, List.map_append, List.sum_append]

theorem ofUnit_singleton (p : TimeUnit × Int) (u : TimeUnit) :
    ofUnit [p] u = if p.1 = u then p.2 else 0 := by
  unfold ofUnit
  by_cases hp : p.1 = u
  · have hkept : [p].filter (·.1 = u) = [p] := List.filter_cons_of_pos (decide_eq_true hp)
    rw [hkept, if_pos hp]
    exact List.sum_singleton
  · have hdropped : [p].filter (·.1 = u) = [] :=
      List.filter_cons_of_neg (mt of_decide_eq_true hp)
    rw [hdropped, if_neg hp]
    rfl

/-- Amounts of which doubles hold the milliseconds, those that lead into the past together with
those that lead into the future. -/
def AreSafe (a : WholeAmounts) : Prop :=
  a.forth + a.back ≤ maxSafe

/-- The milliseconds of a unit, and so its amount, are no more than those of all amounts. -/
theorem AreSafe.ofUnit {a : WholeAmounts} (h : a.AreSafe) (u : TimeUnit) :
    (a.ofUnit u * u.millis).natAbs ≤ maxSafe ∧ (a.ofUnit u).natAbs ≤ maxSafe := by
  have hbounds := a.millis_filter_bounds (·.1 = u)
  have hforth := a.forth_nonneg
  have hback := a.back_nonneg
  have hunit : 0 < u.millis := by
    cases u <;> decide
  have hle : (a.ofUnit u).natAbs ≤ (a.ofUnit u * u.millis).natAbs := by
    rw [Int.natAbs_mul, Int.natAbs_natCast]
    exact Nat.le_mul_of_pos_right _ hunit
  rw [millis_filter_unit] at hbounds
  unfold AreSafe at h
  omega

theorem AreSafe.of_append {a b : WholeAmounts} (h : AreSafe (a ++ b)) : a.AreSafe := by
  have hforth := b.forth_nonneg
  have hback := b.back_nonneg
  unfold AreSafe at *
  rw [forth_append, back_append] at h
  omega

theorem AreSafe.neg {a : WholeAmounts} (h : a.AreSafe) : a.neg.AreSafe := by
  unfold AreSafe at *
  rw [forth_neg, back_neg]
  omega

end WholeAmounts

/-- Doubles that hold whole amounts of units which are not counted in months. -/
def HoldAmounts (floats : List (TimeUnit × Float)) (a : WholeAmounts) : Prop :=
  List.Forall₂ (fun f p => f.1 = p.1 ∧ p.1.months? = none ∧ Holds f.2 p.2) floats a

/-- The amounts of a unit are added up without loss. -/
theorem holds_totalOf {floats : List (TimeUnit × Float)} {a : WholeAmounts}
    (h : HoldAmounts floats a) (hsafe : a.AreSafe) (u : TimeUnit) :
    Holds (totalOf u floats) (a.ofUnit u) := by
  suffices hrun : ∀ add : Float → TimeUnit × Float → Float,
      (∀ total f, add total f = if f.1 = u then total + f.2 else total) →
      ∀ (done : WholeAmounts) (total : Float), (done ++ a).AreSafe →
        Holds total (done.ofUnit u) →
        Holds (floats.foldl add total) (WholeAmounts.ofUnit (done ++ a) u) from
    hrun _ (fun _ _ => rfl) [] 0.0 hsafe .zero
  clear hsafe
  intro add hadd
  -- `done` are the amounts that have been added
  induction h with
  | nil =>
    intro done total _ htotal
    rwa [List.append_nil]
  | @cons f p floats a hfirst _ ih =>
    intro done total hsafe htotal
    obtain ⟨hunit, -, hamount⟩ := hfirst
    have hsplit : done ++ p :: a = done ++ [p] ++ a := by
      rw [List.append_assoc, List.singleton_append]
    rw [hsplit] at hsafe ⊢
    rw [List.foldl_cons, hadd]
    apply ih _ _ hsafe
    have hsum := (hsafe.of_append.ofUnit u).2
    rw [WholeAmounts.ofUnit_append, WholeAmounts.ofUnit_singleton] at hsum ⊢
    rw [hunit]
    by_cases hu : p.1 = u
    · rw [if_pos hu] at hsum ⊢
      rw [if_pos hu]
      exact htotal.add hamount hsum
    · rw [if_neg hu, if_neg hu, Int.add_zero]
      exact htotal

/-- Of units that are counted in months there are no amounts. -/
theorem ofUnit_of_months {floats : List (TimeUnit × Float)} {a : WholeAmounts}
    (h : HoldAmounts floats a) {u : TimeUnit} {n : Nat} (hu : u.months? = some n) :
    a.ofUnit u = 0 := by
  induction h with
  | nil => rfl
  | @cons f p floats a hfirst _ ih =>
    have hne : p.1 ≠ u := by
      rintro rfl
      rw [hfirst.2.1] at hu
      cases hu
    rw [← List.singleton_append, WholeAmounts.ofUnit_append, WholeAmounts.ofUnit_singleton,
      if_neg hne, ih, Int.add_zero]

namespace Moment

/-- The moment that lies so many milliseconds later, if it is a date or not. -/
def later (m : Moment) (n : Int) : Moment :=
  { m with utc := m.utc.addMillis n }

variable {floats : List (TimeUnit × Float)} {a : WholeAmounts} {m : Moment}

/-- A double that holds a number of milliseconds moves a moment by them. -/
theorem addFloatMillis?_of_holds {x : Float} {n : Int} (h : Holds x n)
    (hrange : (m.utc.addMillis n).inRange = true) : m.addFloatMillis? x = some (m.later n) := by
  unfold addFloatMillis?
  rw [h.nearest?]
  exact if_pos hrange

/-- A unit without an amount leaves a moment as it is. -/
theorem addTotal_of_zero (h : HoldAmounts floats a) (hsafe : a.AreSafe) {u : TimeUnit}
    (hzero : a.ofUnit u = 0) : m.addTotal floats u = .ok m := by
  unfold addTotal
  dsimp only
  rw [if_pos ((holds_totalOf h hsafe u).beq_zero_iff.2 hzero)]

/-- What a unit adds. -/
theorem addTotal_of_ne_zero (h : HoldAmounts floats a) (hsafe : a.AreSafe) {u : TimeUnit}
    (hne : a.ofUnit u ≠ 0) (hrange : (m.utc.addMillis (a.ofUnit u * u.millis)).inRange = true) :
    m.addTotal floats u = .ok (m.later (a.ofUnit u * u.millis)) := by
  have htotal := holds_totalOf h hsafe u
  have hmonths : u.months? = none := by
    cases hu : u.months? with
    | none => rfl
    | some n => exact absurd (ofUnit_of_months h hu) hne
  -- the amount in milliseconds is no larger than all amounts together, so it is exact
  have hmillis := htotal.mul (holds_ofNat (k := u.millis) (by cases u <;> decide))
    (hsafe.ofUnit u).1
  unfold addTotal
  dsimp only
  rw [if_neg (mt htotal.beq_zero_iff.1 hne), htotal.isFinite]
  unfold addAmount?
  rw [hmonths]
  dsimp only
  rw [addFloatMillis?_of_holds hmillis hrange]
  rfl

theorem addTotal_of_holds (h : HoldAmounts floats a) (hsafe : a.AreSafe)
    (hleap : ¬m.utc.HasLeapSecond) {u : TimeUnit}
    (hrange : (m.utc.addMillis (a.ofUnit u * u.millis)).inRange = true) :
    m.addTotal floats u = .ok (m.later (a.ofUnit u * u.millis)) := by
  by_cases hzero : a.ofUnit u = 0
  · rw [addTotal_of_zero h hsafe hzero, hzero, Int.zero_mul, later, Timestamp.addMillis_zero hleap]
  · exact addTotal_of_ne_zero h hsafe hzero hrange

/-- An amount of a single unit moves a moment in one step, also out of a leap second. -/
theorem shift_of_single {u : TimeUnit} {n : Int} (h : HoldAmounts floats [(u, n)])
    (hsafe : WholeAmounts.AreSafe [(u, n)]) (hn : n ≠ 0)
    (hrange : (m.utc.addMillis (n * u.millis)).inRange = true) :
    m.shift floats = .ok (m.later (n * u.millis)) := by
  have hunit : WholeAmounts.ofUnit [(u, n)] u = n := by
    rw [WholeAmounts.ofUnit_singleton, if_pos rfl]
  -- there is nothing of the other units to add
  have hothers (m : Moment) (units : List TimeUnit) (hu : u ∉ units) :
      units.foldlM (fun m u => m.addTotal floats u) m = .ok m := by
    induction units with
    | nil => rfl
    | cons v units ih =>
      obtain ⟨hv, hu⟩ := not_or.1 (mt List.mem_cons.2 hu)
      have hzero : WholeAmounts.ofUnit [(u, n)] v = 0 := by
        rw [WholeAmounts.ofUnit_singleton, if_neg hv]
      rw [List.foldlM_cons, addTotal_of_zero h hsafe hzero]
      exact ih hu
  -- the unit stands among all units once
  have hnodup : TimeUnit.all.Nodup := by decide
  obtain ⟨before, behind, hall⟩ := List.append_of_mem (show u ∈ TimeUnit.all by cases u <;> decide)
  rw [hall, List.nodup_append, List.nodup_cons] at hnodup
  obtain ⟨-, ⟨hbehind, -⟩, hbefore⟩ := hnodup
  rw [← hunit] at hrange
  have hstep := addTotal_of_ne_zero h hsafe (by rwa [hunit]) hrange
  unfold shift
  rw [hall, List.foldlM_append, hothers m before fun hu => hbefore u hu u List.mem_cons_self rfl]
  show (behind.foldlM (fun m u => m.addTotal floats u) =<< m.addTotal floats u) = _
  rw [hstep, hunit]
  exact hothers _ behind hbehind

theorem later_later (hleap : ¬m.utc.HasLeapSecond) (i j : Int) :
    (m.later i).later j = m.later (i + j) := by
  unfold later
  dsimp only
  rw [Timestamp.addMillis_addMillis hleap]

/-- A moment is moved by the milliseconds that the amounts come to. On the way, unit by unit, it
stays between the moments to which the amounts into the past and those into the future lead. -/
theorem shift_of_holds (h : HoldAmounts floats a) (hsafe : a.AreSafe)
    (hleap : ¬m.utc.HasLeapSecond) (hlow : (m.utc.addMillis (-a.back)).inRange = true)
    (hhigh : (m.utc.addMillis a.forth).inRange = true) :
    m.shift floats = .ok (m.later a.millis) := by
  -- some of the amounts lead neither further back nor further forth than all of them
  have hrange (units : List TimeUnit) : (m.utc.addMillis (a.millisOf units)).inRange = true :=
    Timestamp.inRange_addMillis hleap hlow hhigh (a.millis_filter_bounds _).1
      (a.millis_filter_bounds _).2
  suffices hrun : ∀ units done : List TimeUnit, (done ++ units).Nodup →
      units.foldlM (fun m u => m.addTotal floats u) (m.later (a.millisOf done)) =
        .ok (m.later (a.millisOf (done ++ units))) by
    have hall := hrun TimeUnit.all [] (by decide)
    have hstart : m.later 0 = m := by
      rw [later, Timestamp.addMillis_zero hleap]
    rw [WholeAmounts.millisOf_nil, hstart, List.nil_append, WholeAmounts.millisOf_all] at hall
    exact hall
  intro units
  -- `done` are the units whose amounts have been added
  induction units with
  | nil =>
    intro done _
    rw [List.append_nil]
    rfl
  | cons u units ih =>
    intro done hnodup
    have hsplit : done ++ u :: units = done ++ [u] ++ units := by
      rw [List.append_assoc, List.singleton_append]
    have hu : u ∉ done := by
      intro hmem
      exact (List.nodup_append.1 hnodup).2.2 u hmem u List.mem_cons_self rfl
    have hleap' : ¬(m.later (a.millisOf done)).utc.HasLeapSecond :=
      Timestamp.not_hasLeapSecond_addMillis hleap _
    have hnext : (m.later (a.millisOf done)).later (a.ofUnit u * u.millis) =
        m.later (a.millisOf (done ++ [u])) := by
      rw [later_later hleap, a.millisOf_append_singleton hu]
    have hdate : ((m.later (a.millisOf done)).utc.addMillis
        (a.ofUnit u * u.millis)).inRange = true := by
      have hnextRange := hrange (done ++ [u])
      rw [a.millisOf_append_singleton hu, ← Timestamp.addMillis_addMillis hleap] at hnextRange
      exact hnextRange
    rw [hsplit] at hnodup ⊢
    rw [List.foldlM_cons, addTotal_of_holds h hsafe hleap' hdate, hnext]
    exact ih _ hnodup

end Moment

end Workflow.Time
