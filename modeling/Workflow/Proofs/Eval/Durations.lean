import Workflow.Evaluate
import Workflow.Proofs.Eval.UnitBounds
import Workflow.Proofs.Time.ExactAmounts

/-! Durations of weeks, days, hours, minutes, seconds and milliseconds as methods of moments add and
take them: outside leap seconds they move moments as numbers move numbers. -/
namespace Workflow.Eval

open Time Number

/-- A duration that comes to whole amounts of units which are not counted in months: a number of
milliseconds, or an object with an amount under each of some names of units. -/
inductive Lasts : Value → WholeAmounts → Prop
  | millis {x : Float} {n : Int} : Holds x n → Lasts (.number x) [(.millisecond, n)]
  | object {mark : Mark} {entries : List (String × Value)} {a : WholeAmounts} :
    List.Forall₂ (fun e p => (e.1 = p.1.name ∨ e.1 = p.1.name ++ "s") ∧ p.1.months? = none ∧
      Holds e.2.toNumber p.2) entries a → Lasts (.object mark entries) a

/-- What `plus` makes of a moment and a duration. -/
def PlusGives (m : Moment) (duration : Value) (m' : Moment) : Prop :=
  momentMethod m .plus [duration] = pure (.moment m')

/-- What `minus` makes of a moment and a duration. -/
def MinusGives (m : Moment) (duration : Value) (m' : Moment) : Prop :=
  momentMethod m .minus [duration] = pure (.moment m')

/-- What `setZone` makes of a moment by the name of a zone, in every setting with these zones. -/
def SetZoneGives (zones : ZoneDatabase) (m : Moment) (zone : String) (m' : Moment) : Prop :=
  ∀ s : Setting, s.zones = zones → ∀ t,
    momentMethod m .setZone [.string zone] s t = .ok (.moment m') t

/-- The amounts of an object, each multiplied with a sign. -/
theorem amounts_of_forall₂ {entries : List (String × Value)} {a : WholeAmounts} {sign : Float}
    {f : Int → Int} (hsign : ∀ {x : Float} {n : Int}, Holds x n → Holds (x * sign) (f n))
    (h : List.Forall₂ (fun e p => (e.1 = p.1.name ∨ e.1 = p.1.name ++ "s") ∧
      p.1.months? = none ∧ Holds e.2.toNumber p.2) entries a) :
    ∃ floats, amounts entries sign = pure floats ∧
      HoldAmounts floats (a.map fun p => (p.1, f p.2)) := by
  induction h with
  | nil => exact ⟨[], rfl, .nil⟩
  | @cons e p entries a hfirst _ ih =>
    obtain ⟨floats, hfloats, hhold⟩ := ih
    obtain ⟨hname, hmonths, hvalue⟩ := hfirst
    refine ⟨(p.1, e.2.toNumber * sign) :: floats, ?_, .cons ⟨rfl, hmonths, hsign hvalue⟩ hhold⟩
    unfold amounts at hfloats ⊢
    rw [List.mapM_cons, hfloats]
    dsimp only
    rw [ofName?_eq_some_iff.2 hname]
    rfl

theorem holds_mul_one {x : Float} {n : Int} (h : Holds x n) : Holds (x * 1.0) n := by
  have hproduct := h.mul holds_one (by rw [Int.mul_one]; exact h.natAbs_le)
  rwa [Int.mul_one] at hproduct

theorem holds_mul_neg_one {x : Float} {n : Int} (h : Holds x n) : Holds (x * -1.0) (-n) := by
  have hneg : n * -1 = -n := Int.mul_neg_one n
  have hproduct := h.mul holds_neg_one (by rw [hneg, Int.natAbs_neg]; exact h.natAbs_le)
  rwa [hneg] at hproduct

variable {m : Moment} {v w : Value} {a b : WholeAmounts}

theorem shift_object {mark : Mark} {entries : List (String × Value)} {sign : Float}
    {floats : List (TimeUnit × Float)} {m' : Moment} (hfloats : amounts entries sign = pure floats)
    (hshift : m.shift floats = .ok m') :
    shift m (.object mark entries) sign = pure (.moment m') := by
  have hbind : ∀ f : List (TimeUnit × Float) → EvalM Value, pure floats >>= f = f floats :=
    fun _ => rfl
  unfold shift
  dsimp only
  rw [hfloats, hbind, hshift]

/-- A duration, taken with a sign, moves a moment by its milliseconds. -/
theorem shift_of_lasts {sign : Float} {f : Int → Int}
    (hsign : ∀ {x : Float} {n : Int}, Holds x n → Holds (x * sign) (f n)) (h : Lasts v a)
    {c : WholeAmounts} (hc : c = a.map fun p => (p.1, f p.2)) (hsafe : c.AreSafe)
    (hleap : ¬m.utc.HasLeapSecond) (hlow : (m.utc.addMillis (-c.back)).inRange = true)
    (hhigh : (m.utc.addMillis c.forth).inRange = true) :
    shift m v sign = pure (.moment (m.later c.millis)) := by
  subst hc
  cases h with
  | @millis x n hx =>
    have hmillis : WholeAmounts.millis ([(TimeUnit.millisecond, n)].map fun p => (p.1, f p.2)) =
        f n := by
      show f n * 1 + 0 = f n
      omega
    have hbounds := WholeAmounts.millis_bounds
      ([(TimeUnit.millisecond, n)].map fun p => (p.1, f p.2))
    have hrange := Timestamp.inRange_addMillis hleap hlow hhigh hbounds.1 hbounds.2
    rw [hmillis] at hrange ⊢
    show (do return Value.moment (← orOutOfRange .moment (m.addFloatMillis? (x * sign))) :
      EvalM Value) = _
    rw [Moment.addFloatMillis?_of_holds (hsign hx) hrange]
    rfl
  | @object mark entries _ hentries =>
    obtain ⟨floats, hfloats, hhold⟩ := amounts_of_forall₂ hsign hentries
    exact shift_object hfloats (Moment.shift_of_holds hhold hsafe hleap hlow hhigh)

theorem plus_of_lasts (h : Lasts v a) (hsafe : a.AreSafe) (hleap : ¬m.utc.HasLeapSecond)
    (hlow : (m.utc.addMillis (-a.back)).inRange = true)
    (hhigh : (m.utc.addMillis a.forth).inRange = true) : PlusGives m v (m.later a.millis) :=
  shift_of_lasts holds_mul_one h (List.map_id _).symm hsafe hleap hlow hhigh

theorem minus_of_lasts (h : Lasts v a) (hsafe : a.AreSafe) (hleap : ¬m.utc.HasLeapSecond)
    (hlow : (m.utc.addMillis (-a.forth)).inRange = true)
    (hhigh : (m.utc.addMillis a.back).inRange = true) : MinusGives m v (m.later (-a.millis)) := by
  rw [← a.back_neg] at hlow
  rw [← a.forth_neg] at hhigh
  rw [← a.millis_neg]
  exact shift_of_lasts holds_mul_neg_one h rfl hsafe.neg hleap hlow hhigh

theorem setZone_of_parse {zones : ZoneDatabase} {zone : String} {z : Zone}
    (h : Zone.parse? zone zones = some z) (m : Moment) :
    SetZoneGives zones m zone (z.convert m.utc) := by
  intro s hzones t
  have hread : Zone.parse? ("" ++ zone) s.zones = some z := by
    rw [hzones, String.empty_append, h]
  show (orOutOfRange .zone (Zone.parse? ("" ++ zone) s.zones) >>= fun z =>
    pure (Value.moment (z.convert m.utc)) : EvalM Value) s t = _
  rw [hread]
  rfl

/-- A week is seven days, and as many milliseconds as a number of them says. -/
theorem millis_week (n : Int) :
    WholeAmounts.millis [(.week, n)] = WholeAmounts.millis [(.day, 7 * n)] ∧
      WholeAmounts.millis [(.week, n)] = WholeAmounts.millis [(.millisecond, 604_800_000 * n)] := by
  constructor
  · show n * 604800000 + 0 = 7 * n * 86400000 + 0
    omega
  · show n * 604800000 + 0 = 604800000 * n * 1 + 0
    omega

/-- Outside leap seconds, durations of which doubles hold all amounts can be taken back and added in
any order; what they add is their milliseconds, and in whatever zone they add them, whatever zones
have names. -/
theorem durations_act (hleap : ¬m.utc.HasLeapSecond) (hv : Lasts v a) (hw : Lasts w b)
    (ha : a.AreSafe) (hb : b.AreSafe)
    (hlow : (m.utc.addMillis (-(a.back + b.back))).inRange = true)
    (hhigh : (m.utc.addMillis (a.forth + b.forth)).inRange = true) :
    ∃ x y s, PlusGives m v x ∧ MinusGives x v m ∧ PlusGives m w y ∧ PlusGives x w s ∧
      PlusGives y v s ∧ (a.millis = b.millis → x = y) ∧
      ∀ zones zone z, Zone.parse? zone zones = some z →
        ∃ m' x', SetZoneGives zones m zone m' ∧ PlusGives m' v x' ∧ x'.utc = x.utc := by
  have haf := a.forth_nonneg
  have hab := a.back_nonneg
  have hbf := b.forth_nonneg
  have hbb := b.back_nonneg
  have ham := a.millis_eq
  have hbm := b.millis_eq
  -- all moments on the way lie between the two ends
  have hrange {n : Int} (hn : -(a.back + b.back) ≤ n) (hn' : n ≤ a.forth + b.forth) :
      (m.utc.addMillis n).inRange = true :=
    Timestamp.inRange_addMillis hleap hlow hhigh hn hn'
  have hlater {i n : Int} (hn : -(a.back + b.back) ≤ i + n) (hn' : i + n ≤ a.forth + b.forth) :
      ((m.later i).utc.addMillis n).inRange = true := by
    show ((m.utc.addMillis i).addMillis n).inRange = true
    rw [Timestamp.addMillis_addMillis hleap]
    exact hrange hn hn'
  have hleap' (n : Int) : ¬(m.later n).utc.HasLeapSecond :=
    Timestamp.not_hasLeapSecond_addMillis hleap n
  refine ⟨m.later a.millis, m.later b.millis, m.later (a.millis + b.millis),
    plus_of_lasts hv ha hleap (hrange (by omega) (by omega)) (hrange (by omega) (by omega)), ?_,
    plus_of_lasts hw hb hleap (hrange (by omega) (by omega)) (hrange (by omega) (by omega)),
    ?_, ?_, fun heq => by rw [heq], fun zones zone z hz => ?_⟩
  · have hback := minus_of_lasts hv ha (hleap' a.millis) (hlater (by omega) (by omega))
      (hlater (by omega) (by omega))
    have hstart : m.later 0 = m := by
      rw [Moment.later, Timestamp.addMillis_zero hleap]
    rwa [Moment.later_later hleap, Int.add_right_neg, hstart] at hback
  · have hsum := plus_of_lasts hw hb (hleap' a.millis) (hlater (by omega) (by omega))
      (hlater (by omega) (by omega))
    rwa [Moment.later_later hleap] at hsum
  · have hsum := plus_of_lasts hv ha (hleap' b.millis) (hlater (by omega) (by omega))
      (hlater (by omega) (by omega))
    rwa [Moment.later_later hleap, Int.add_comm] at hsum
  · exact ⟨z.convert m.utc, (z.convert m.utc).later a.millis, setZone_of_parse hz m,
      plus_of_lasts hv ha hleap (hrange (by omega) (by omega)) (hrange (by omega) (by omega)), rfl⟩

theorem durations_act_on_leap_day :
    let m : Moment := ⟨⟨1582979696, 789_000_000⟩, 3600⟩
    let mark : Mark := { origin := .root "$json" }
    let v : Value := .object mark [("days", .number 7.0), ("hour", .number (-1.0)),
      ("hours", .number 1.0)]
    let w : Value := .object mark [("week", .number 1.0)]
    ∃ x y s, PlusGives m v x ∧ MinusGives x v m ∧ PlusGives m w y ∧ PlusGives x w s ∧
      PlusGives y v s ∧ x = y ∧
      ∃ m' x', SetZoneGives .known m "Europe/Berlin" m' ∧ PlusGives m' v x' ∧ x'.utc = x.utc := by
  intro m mark v w
  have hleap : ¬m.utc.HasLeapSecond := show ¬1_000_000_000 ≤ 789_000_000 by decide
  have hseven : Holds 7.0 7 := .whole .positive (k := 7) (by decide) (by decide)
  have hv : Lasts v [(.day, 7), (.hour, -1), (.hour, 1)] :=
    .object (.cons ⟨Or.inr rfl, rfl, hseven⟩ (.cons ⟨Or.inl rfl, rfl, holds_neg_one⟩
      (.cons ⟨Or.inr rfl, rfl, holds_one⟩ .nil)))
  have hw : Lasts w [(.week, 1)] := .object (.cons ⟨Or.inl rfl, rfl, holds_one⟩ .nil)
  obtain ⟨x, y, s, hx, hback, hy, hs, hs', htotal, hzone⟩ :=
    durations_act hleap hv hw (by unfold WholeAmounts.AreSafe; decide)
      (by unfold WholeAmounts.AreSafe; decide) (by decide) (by decide)
  obtain ⟨z, hz⟩ : ∃ z, Zone.parse? "Europe/Berlin" .known = some z := ⟨_, rfl⟩
  exact ⟨x, y, s, hx, hback, hy, hs, hs', htotal (by decide), hzone _ _ z hz⟩

/-- From half a second into the leap second at the end of 2016, a second forth and back leads into
the second before. -/
theorem not_durations_act_in_leap_second :
    let m : Moment := ⟨⟨1483228799, 1_500_000_000⟩, 0⟩
    let v : Value := .object { origin := .root "$json" } [("seconds", .number 1.0)]
    Lasts v [(.second, 1)] ∧ WholeAmounts.AreSafe [(.second, 1)] ∧
      (m.utc.addMillis (-1000)).inRange = true ∧ (m.utc.addMillis 1000).inRange = true ∧
      ¬∃ x, PlusGives m v x ∧ MinusGives x v m := by
  intro m v
  have hentries : List.Forall₂ (fun (e : String × Value) p =>
      (e.1 = p.1.name ∨ e.1 = p.1.name ++ "s") ∧ p.1.months? = none ∧ Holds e.2.toNumber p.2)
      [("seconds", .number 1.0)] [(TimeUnit.second, 1)] :=
    .cons ⟨Or.inr rfl, rfl, holds_one⟩ .nil
  have hsafe : WholeAmounts.AreSafe [(.second, 1)] := by
    unfold WholeAmounts.AreSafe
    decide
  refine ⟨.object hentries, hsafe, by decide, by decide, fun ⟨x, hplus, hminus⟩ => ?_⟩
  -- the leap second is left for the first second of the next year
  have hforth : PlusGives m v ⟨⟨1483228800, 500_000_000⟩, 0⟩ := by
    obtain ⟨floats, hfloats, hhold⟩ := amounts_of_forall₂ holds_mul_one hentries
    have hshift : m.shift floats = .ok (m.later (1 * TimeUnit.second.millis)) :=
      Moment.shift_of_single hhold hsafe (by decide) (by decide)
    have hlater : m.later (1 * TimeUnit.second.millis) = ⟨⟨1483228800, 500_000_000⟩, 0⟩ := by
      decide
    rw [hlater] at hshift
    show shift m v 1.0 = _
    exact shift_object hfloats hshift
  have hx := Value.moment.inj (pure_inj (hforth.symm.trans hplus))
  have hback : MinusGives ⟨⟨1483228800, 500_000_000⟩, 0⟩ v ⟨⟨1483228799, 500_000_000⟩, 0⟩ :=
    minus_of_lasts (.object hentries) hsafe
      (show ¬1_000_000_000 ≤ 500_000_000 by decide) (by decide) (by decide)
  rw [← hx] at hminus
  have hsame := Value.moment.inj (pure_inj (hback.symm.trans hminus))
  exact absurd hsame (by decide)

end Workflow.Eval
