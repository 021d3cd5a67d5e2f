import Workflow.Evaluate
import Workflow.Proofs.Eval.Yields
import Workflow.Proofs.Time.UnitSpans

/-! The starts and ends of units as the methods of moments give them. The stretches of a unit divide
time up, but for leap seconds, which lie behind the end of their second. -/
namespace Workflow.Eval

open Time

/-- What `startOf` makes of a moment by the name of a unit. -/
def StartsAt (name : String) (m start : Moment) : Prop :=
  momentMethod m .startOf [.string name] = pure (.moment start)

/-- What `endOf` makes of a moment by the name of a unit. -/
def EndsAt (name : String) (m finish : Moment) : Prop :=
  momentMethod m .endOf [.string name] = pure (.moment finish)

/-- A unit lasts from `start` to `finish`, to the millisecond; `m` is one of its moments, and all
moments of it that are given here have the same start and end. -/
structure Bounds (name : String) (m start finish : Moment) : Prop where
  start_le : start.utc.toNanos ≤ m.utc.toNanos
  le_finish : m.utc.toNanos ≤ finish.utc.toNanos
  startsAt : StartsAt name m start
  startsAt_start : StartsAt name start start
  startsAt_finish : StartsAt name finish start
  endsAt : EndsAt name m finish
  endsAt_start : EndsAt name start finish
  endsAt_finish : EndsAt name finish finish
  next : ∃ next, finish.addMillis? 1 = some next ∧ StartsAt name next next ∧ next ≠ start
  offset_start : start.offset = m.offset

/-- Every unit has a start and an end around the moment. -/
def IsBounded (m : Moment) : Prop :=
  ∀ u ≠ TimeUnit.millisecond, ∀ name, name = u.name ∨ name = u.name ++ "s" →
    ∃ start finish, Bounds name m start finish

theorem ofName?_eq_some_iff {name : String} {u : TimeUnit} :
    TimeUnit.ofName? name = some u ↔ name = u.name ∨ name = u.name ++ "s" := by
  constructor
  · intro h
    have hfound := List.find?_some h
    simpa using hfound
  · rintro (rfl | rfl) <;> cases u <;> decide

theorem ofName?_eq_none_iff {name : String} :
    TimeUnit.ofName? name = none ↔ ∀ u : TimeUnit, ¬(name = u.name ∨ name = u.name ++ "s") := by
  constructor
  · intro h u hname
    rw [ofName?_eq_some_iff.2 hname] at h
    cases h
  · intro h
    cases hu : TimeUnit.ofName? name with
    | none => rfl
    | some u => exact absurd (ofName?_eq_some_iff.1 hu) (h u)

theorem readUnit_string (name : String) :
    readUnit [.string name] = orOutOfRange .unit (TimeUnit.ofName? name) := by
  show orOutOfRange .unit (TimeUnit.ofName? ("" ++ name)) = _
  rw [String.empty_append]

variable {name : String} {u : TimeUnit} {m m' : Moment}

theorem startsAt_of_some (hname : TimeUnit.ofName? name = some u) (h : m.startOf? u = some m') :
    StartsAt name m m' := by
  unfold StartsAt momentMethod
  dsimp only
  rw [readUnit_string, hname]
  show (do return Value.moment (← orOutOfRange .unit (m.startOf? u)) : EvalM Value) = _
  rw [h]
  rfl

theorem endsAt_of_some (hname : TimeUnit.ofName? name = some u) (h : m.endOf? u = some m') :
    EndsAt name m m' := by
  unfold EndsAt momentMethod
  dsimp only
  rw [readUnit_string, hname]
  show (do return Value.moment (← orOutOfRange .unit (m.endOf? u)) : EvalM Value) = _
  rw [h]
  rfl

theorem unitMethod_of_none (hname : TimeUnit.ofName? name = none) :
    momentMethod m .startOf [.string name] = outOfRange .unit ∧
      momentMethod m .endOf [.string name] = outOfRange .unit := by
  unfold momentMethod
  dsimp only
  rw [readUnit_string, hname]
  exact ⟨rfl, rfl⟩

/-- Outside leap seconds a moment to the millisecond lies between the bounds of its units. -/
theorem bounds_of_spans {first past : Int} (hname : TimeUnit.ofName? name = some u)
    (hms : u ≠ .millisecond) (h : Moment.Spans u first past) (hlow : first ≤ m.wall.seconds)
    (hhigh : m.wall.seconds < past) (hfirst : Moment.HasDate first) (hpast : Moment.HasDate past)
    (hnear : m.NearUtc) (hmillis : m.utc.nanos % 1_000_000 = 0) (hleap : ¬m.utc.HasLeapSecond) :
    Bounds name m (.ofWall ⟨first, 0⟩ m.offset) (.ofWall ⟨past - 1, 999_000_000⟩ m.offset) := by
  have hnanos := (Timestamp.not_hasLeapSecond_iff _).1 hleap
  have hwall : m.wall.seconds = m.utc.seconds + m.offset := rfl
  have hlt := h.lt
  have hstart {t : Timestamp} (hlow : first ≤ t.seconds) (hhigh : t.seconds < past) :
      StartsAt name (.ofWall t m.offset) (.ofWall ⟨first, 0⟩ m.offset) :=
    startsAt_of_some hname (Moment.startOf?_of_spans hms h hnear hfirst hlow hhigh)
  have hend {t : Timestamp} (hlow : first ≤ t.seconds) (hhigh : t.seconds < past) :
      EndsAt name (.ofWall t m.offset) (.ofWall ⟨past - 1, 999_000_000⟩ m.offset) :=
    endsAt_of_some hname (Moment.endOf?_of_spans hms h hnear hfirst hpast hlow hhigh)
  have hm := m.ofWall_wall
  obtain ⟨hnext, hnextStart⟩ := Moment.addMillis?_end hms h hnear hpast
  unfold nanosPerSecond at hnanos
  exact {
    start_le := by
      unfold Timestamp.toNanos Moment.ofWall nanosPerSecond
      dsimp only
      omega
    le_finish := by
      unfold Timestamp.toNanos Moment.ofWall nanosPerSecond
      dsimp only
      omega
    startsAt := by
      have hself := hstart hlow hhigh
      rwa [hm] at hself
    startsAt_start := hstart le_rfl hlt
    startsAt_finish := hstart (t := ⟨past - 1, 999_000_000⟩) (Int.le_sub_one_of_lt hlt)
      (Int.sub_one_lt_of_le le_rfl)
    endsAt := by
      have hself := hend hlow hhigh
      rwa [hm] at hself
    endsAt_start := hend le_rfl hlt
    endsAt_finish := hend (t := ⟨past - 1, 999_000_000⟩) (Int.le_sub_one_of_lt hlt)
      (Int.sub_one_lt_of_le le_rfl)
    next := by
      refine ⟨_, hnext, startsAt_of_some hname hnextStart, fun heq => ?_⟩
      have hseconds : past - m.offset = first - m.offset :=
        congrArg (fun m : Moment => m.utc.seconds) heq
      omega
    offset_start := rfl }

/-- A leap second lies behind the end of the second that it belongs to. -/
theorem not_bounds_of_leap (hnear : m.NearUtc) (haway : m.IsAway) (hleap : m.utc.HasLeapSecond)
    (start finish : Moment) : ¬Bounds "second" m start finish := by
  intro hbounds
  have hms : TimeUnit.second ≠ .millisecond := by decide
  have hname : TimeUnit.ofName? "second" = some .second := by decide
  obtain ⟨first, past, hspan, hlow, hhigh, hfirst, hpast⟩ :=
    Moment.exists_spans_hasDate hms haway
  -- the unit is a single second
  have hone : past - 1 = first := by
    have hlt := hspan.lt
    have hstart := hspan.start ⟨past - 1, 0⟩ (Int.le_sub_one_of_lt hlt)
      (Int.sub_one_lt_of_le le_rfl)
    rw [Moment.startOnWall_seconds rfl hms] at hstart
    have hseconds : past - 1 - (past - 1 + 0) % 1 = first := congrArg Timestamp.seconds hstart
    omega
  have hend := Moment.endOf?_of_spans hms hspan hnear hfirst hpast hlow hhigh
  rw [m.ofWall_wall] at hend
  -- so its end is a millisecond before the leap second at least
  have hfinish :=
    Value.moment.inj (pure_inj ((endsAt_of_some hname hend).symm.trans hbounds.endsAt))
  have hle := hbounds.le_finish
  have hwall : m.wall.seconds = m.utc.seconds + m.offset := rfl
  rw [← hfinish] at hle
  unfold Timestamp.HasLeapSecond at hleap
  unfold Timestamp.toNanos Moment.ofWall nanosPerSecond at *
  dsimp only at hle
  omega

/-- Away from the ends of the calendar, moments to the millisecond have bounds for all units if and
only if they do not lie in leap seconds. Milliseconds leave a moment as it is, and other names than
those of units are refused. -/
theorem bounded_iff_no_leap (hmillis : m.utc.nanos % 1_000_000 = 0) (hnear : m.NearUtc)
    (haway : m.IsAway) :
    (IsBounded m ↔ ¬m.utc.HasLeapSecond) ∧
    (∀ name, name = TimeUnit.millisecond.name ∨ name = TimeUnit.millisecond.name ++ "s" →
      StartsAt name m m ∧ EndsAt name m m) ∧
    ∀ name, (momentMethod m .startOf [.string name] = outOfRange .unit ↔
        ∀ u : TimeUnit, ¬(name = u.name ∨ name = u.name ++ "s")) ∧
      (momentMethod m .endOf [.string name] = outOfRange .unit ↔
        ∀ u : TimeUnit, ¬(name = u.name ∨ name = u.name ++ "s")) := by
  -- every unit gives a moment, also in leap seconds
  have hdefined {name : String} {u : TimeUnit} (hname : TimeUnit.ofName? name = some u) :
      (∃ start, StartsAt name m start) ∧ ∃ finish, EndsAt name m finish := by
    by_cases hms : u = .millisecond
    · subst hms
      exact ⟨⟨m, startsAt_of_some hname rfl⟩, m, endsAt_of_some hname rfl⟩
    · obtain ⟨first, past, hspan, hlow, hhigh, hfirst, hpast⟩ :=
        Moment.exists_spans_hasDate hms haway
      have hstart := Moment.startOf?_of_spans hms hspan hnear hfirst hlow hhigh
      have hend := Moment.endOf?_of_spans hms hspan hnear hfirst hpast hlow hhigh
      rw [m.ofWall_wall] at hstart hend
      exact ⟨⟨_, startsAt_of_some hname hstart⟩, _, endsAt_of_some hname hend⟩
  refine ⟨⟨fun hbounded hleap => ?_, fun hleap u hms name hname => ?_⟩, fun name hname => ?_,
    fun name => ⟨⟨fun hfail => ?_, fun hnone => ?_⟩, fun hfail => ?_, fun hnone => ?_⟩⟩
  · obtain ⟨start, finish, hbounds⟩ := hbounded .second (by decide) "second" (Or.inl rfl)
    exact not_bounds_of_leap hnear haway hleap start finish hbounds
  · obtain ⟨first, past, hspan, hlow, hhigh, hfirst, hpast⟩ :=
      Moment.exists_spans_hasDate hms haway
    exact ⟨_, _, bounds_of_spans (ofName?_eq_some_iff.2 hname) hms hspan hlow hhigh hfirst hpast
      hnear hmillis hleap⟩
  · have hname := ofName?_eq_some_iff.2 hname
    exact ⟨startsAt_of_some hname rfl, endsAt_of_some hname rfl⟩
  · rw [← ofName?_eq_none_iff, Option.eq_none_iff_forall_ne_some]
    intro u hu
    obtain ⟨⟨start, hstart⟩, -⟩ := hdefined hu
    exact pure_ne_fail (hstart.symm.trans hfail)
  · exact (unitMethod_of_none (ofName?_eq_none_iff.2 hnone)).1
  · rw [← ofName?_eq_none_iff, Option.eq_none_iff_forall_ne_some]
    intro u hu
    obtain ⟨-, finish, hend⟩ := hdefined hu
    exact pure_ne_fail (hend.symm.trans hfail)
  · exact (unitMethod_of_none (ofName?_eq_none_iff.2 hnone)).2

theorem bounded_on_leap_day :
    let m : Moment := ⟨⟨1582979696, 789_000_000⟩, -12600⟩
    m.utc.nanos % 1_000_000 = 0 ∧ m.NearUtc ∧ m.IsAway ∧ ¬m.utc.HasLeapSecond ∧ IsBounded m := by
  intro m
  have hnear : m.NearUtc := show 12600 < 86400 by decide
  have haway : m.IsAway := ⟨by decide +kernel, by decide +kernel⟩
  have hleap : ¬m.utc.HasLeapSecond := show ¬1_000_000_000 ≤ 789_000_000 by decide
  exact ⟨by decide, hnear, haway, hleap, (bounded_iff_no_leap (by decide) hnear haway).1.2 hleap⟩

/-- Half a second into the leap second at the end of 2016, the second has ended before. -/
theorem not_bounded_in_leap_second :
    let m : Moment := ⟨⟨1483228799, 1_500_000_000⟩, 0⟩
    m.utc.nanos % 1_000_000 = 0 ∧ m.NearUtc ∧ m.IsAway ∧ ¬IsBounded m := by
  intro m
  have haway : m.IsAway := ⟨by decide +kernel, by decide +kernel⟩
  have hleap : m.utc.HasLeapSecond := show 1_000_000_000 ≤ 1_500_000_000 by decide
  refine ⟨by decide, Moment.nearUtc_ofUtc _, haway, fun hbounded => ?_⟩
  obtain ⟨start, finish, hbounds⟩ := hbounded .second (by decide) "second" (Or.inl rfl)
  exact not_bounds_of_leap (Moment.nearUtc_ofUtc _) haway hleap start finish hbounds

end Workflow.Eval
