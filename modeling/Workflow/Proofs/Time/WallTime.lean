import Mathlib.Data.List.Chain
import Mathlib.Tactic.Common
import Workflow.Time.Zone

/-! What the clocks of a zone show, and when they show it. The search for a time on the clocks goes
through the same changes as the offset of a point in time, and finds the first point at which the time
is shown. A time that clocks skip keeps the offset from before they jump if it comes before the jump
as universal time, as it does west of Greenwich. -/
namespace Workflow.Time

namespace Transitions

/-- The changes come in the order of their times. -/
def Ordered (table : Transitions) : Prop :=
  table.changes.IsChain fun a b => a.1 ≤ b.1

instance (table : Transitions) : Decidable table.Ordered :=
  inferInstanceAs (Decidable (table.changes.IsChain fun a b => a.1 ≤ b.1))

theorem Ordered.pairwise {table : Transitions} (h : table.Ordered) :
    table.changes.Pairwise fun a b => a.1 ≤ b.1 := by
  have : Trans (fun a b : Int × Int => a.1 ≤ b.1) (fun a b : Int × Int => a.1 ≤ b.1)
      (fun a b : Int × Int => a.1 ≤ b.1) := ⟨Int.le_trans⟩
  exact List.isChain_iff_pairwise.1 h

theorem offsetFrom_cons_of_lt {offset t start next : Int} {rest : List (Int × Int)} (h : t < start) :
    offsetFrom offset t ((start, next) :: rest) = offset :=
  if_pos h

theorem offsetFrom_cons_of_le {offset t start next : Int} {rest : List (Int × Int)} (h : start ≤ t) :
    offsetFrom offset t ((start, next) :: rest) = offsetFrom next t rest :=
  if_neg (Int.not_lt.2 h)

/-- Without a change in between the offset stays the same. -/
theorem offsetAt_eq_of_no_change (table : Transitions) {s t : Int} (hle : s ≤ t)
    (h : ∀ change ∈ table.changes, change.1 ≤ s ∨ t < change.1) :
    table.offsetAt s = table.offsetAt t := by
  unfold offsetAt
  generalize table.first = offset
  generalize table.changes = changes at h
  induction changes generalizing offset with
  | nil => rfl
  | cons change rest ih =>
    obtain ⟨start, next⟩ := change
    obtain ⟨hchange, hrest⟩ := List.forall_mem_cons.1 h
    rcases hchange with hs | ht
    · have hs : start ≤ s := hs
      rw [offsetFrom_cons_of_le hs, offsetFrom_cons_of_le (Int.le_trans hs hle), ih _ hrest]
    · have ht : t < start := ht
      rw [offsetFrom_cons_of_lt (Int.lt_of_le_of_lt hle ht), offsetFrom_cons_of_lt ht]

/-- The offset with which clocks show second `l` first, among the points in time from `start?` on: it
holds at its own point in time, and at no earlier one of these do clocks show `l`. -/
structure ShowsFirst (start? : Option Int) (offset : Int) (changes : List (Int × Int))
    (l found : Int) : Prop where
  late : start?.all (· ≤ l - found) = true
  holds : offsetFrom offset (l - found) changes = found
  first (t : Int) : start?.all (· ≤ t) = true → t + offsetFrom offset t changes = l → l - found ≤ t

/-- The search goes stretch by stretch, each with the changes behind it. -/
theorem showingFrom?_spec {changes : List (Int × Int)}
    (hordered : changes.Pairwise fun a b => a.1 ≤ b.1) {start? : Option Int}
    (hstart : ∀ change ∈ changes, start?.all (· ≤ change.1) = true) (offset l : Int) :
    (∀ found, showingFrom? start? offset l changes = some found →
      ShowsFirst start? offset changes l found) ∧
    (showingFrom? start? offset l changes = none →
      ∀ t, start?.all (· ≤ t) = true → t + offsetFrom offset t changes ≠ l) := by
  induction changes generalizing start? offset with
  | nil =>
    unfold showingFrom?
    constructor
    · intro found h
      split at h
      · rename_i hlate
        obtain rfl := Option.some.inj h
        refine ⟨hlate, rfl, fun t _ ht => ?_⟩
        have ht : t + offset = l := ht
        omega
      · cases h
    · intro h t hlate ht
      have ht : t = l - offset := by
        have ht : t + offset = l := ht
        omega
      rw [← ht, if_pos hlate] at h
      cases h
  | cons change rest ih =>
    obtain ⟨start, next⟩ := change
    obtain ⟨hafter, hrest⟩ := List.pairwise_cons.1 hordered
    have hlate : start?.all (· ≤ start) = true := hstart _ List.mem_cons_self
    have hstarted : ∀ change ∈ rest, (some start).all (· ≤ change.1) = true :=
      fun change hc => decide_eq_true (hafter change hc)
    obtain ⟨hsome, hnone⟩ := ih hrest hstarted next
    -- what is shown before the change is shown with the offset of the stretch
    have hbefore {t : Int} (hlt : t < start)
        (ht : t + offsetFrom offset t ((start, next) :: rest) = l) : t = l - offset := by
      rw [offsetFrom_cons_of_lt hlt] at ht
      omega
    have hbehind {t : Int} (hle : start ≤ t)
        (ht : t + offsetFrom offset t ((start, next) :: rest) = l) :
        t + offsetFrom next t rest = l := by
      rwa [offsetFrom_cons_of_le hle] at ht
    have htrans {t : Int} (hle : start ≤ t) : start?.all (· ≤ t) = true := by
      cases start? with
      | none => rfl
      | some s =>
        have hs : s ≤ start := of_decide_eq_true hlate
        exact decide_eq_true (Int.le_trans hs hle)
    unfold showingFrom?
    by_cases hshown : start?.all (· ≤ l - offset) = true ∧ l - offset < start
    · rw [if_pos (by simpa using hshown)]
      constructor
      · intro found h
        obtain rfl := Option.some.inj h
        refine ⟨hshown.1, offsetFrom_cons_of_lt hshown.2, fun t _ ht => ?_⟩
        rcases Int.lt_or_le t start with hlt | hle
        · exact Int.le_of_eq (hbefore hlt ht).symm
        · exact Int.le_trans (Int.le_of_lt hshown.2) hle
      · exact nofun
    · rw [if_neg (by simpa using hshown)]
      constructor
      · intro found h
        obtain ⟨hfound, hholds, hfirst⟩ := hsome found h
        have hle : start ≤ l - found := of_decide_eq_true hfound
        refine ⟨htrans hle, (offsetFrom_cons_of_le hle).trans hholds, fun t hs ht => ?_⟩
        rcases Int.lt_or_le t start with hlt | hle
        · obtain rfl := hbefore hlt ht
          exact absurd ⟨hs, hlt⟩ hshown
        · exact hfirst t (decide_eq_true hle) (hbehind hle ht)
      · intro h t hs ht
        rcases Int.lt_or_le t start with hlt | hle
        · obtain rfl := hbefore hlt ht
          exact hshown ⟨hs, hlt⟩
        · exact hnone h t (decide_eq_true hle) (hbehind hle ht)

end Transitions

namespace Zone

/-- The changes of a named zone come in the order of their times. -/
def Ordered : Zone → Prop
  | .named _ table => table.Ordered
  | _ => True

/-- Clocks of the zone show second `l` at second `t` of universal time. -/
def Shows (z : Zone) (l t : Int) : Prop :=
  t + z.offsetAt t = l

/-- Clocks of the zone never show second `l`: at second `jump` they go from before it to behind it. -/
structure Skips (z : Zone) (jump l : Int) : Prop where
  never (t : Int) : ¬z.Shows l t
  before : jump - 1 + z.offsetAt (jump - 1) < l
  behind : l < jump + z.offsetAt jump

/-- From second `l` to the jump or from the jump to second `l`, the offset does not change but by the
jump. -/
structure SteadyAround (z : Zone) (jump l : Int) : Prop where
  before (t : Int) : l ≤ t → t < jump → z.offsetAt t = z.offsetAt (jump - 1)
  behind (t : Int) : jump ≤ t → t ≤ l → z.offsetAt t = z.offsetAt jump

section

variable {z : Zone} {l t jump : Int}

theorem showsFirst_of_showing? {table : Transitions} (hz : table.Ordered) {found : Int}
    (h : table.showing? l = some found) :
    Transitions.ShowsFirst none table.first table.changes l found :=
  (Transitions.showingFrom?_spec hz.pairwise (fun _ _ => rfl) table.first l).1 found h

theorem not_shows_of_showing? {name : String} {table : Transitions} (hz : table.Ordered)
    (h : table.showing? l = none) (t : Int) : ¬(Zone.named name table).Shows l t :=
  (Transitions.showingFrom?_spec hz.pairwise (fun _ _ => rfl) table.first l).2 h t rfl

/-- A time that is shown has the offset of the first point in time at which it is. -/
theorem wallOffset_of_shows (hz : z.Ordered) (ht : z.Shows l t) :
    z.offsetAt (l - z.wallOffset l) = z.wallOffset l ∧ l - z.wallOffset l ≤ t := by
  have hsame {offset : Int} (hoffset : ∀ t, z.offsetAt t = offset)
      (hwall : z.wallOffset l = offset) :
      z.offsetAt (l - z.wallOffset l) = z.wallOffset l ∧ l - z.wallOffset l ≤ t := by
    unfold Shows at ht
    rw [hoffset] at ht
    rw [hoffset, hwall]
    exact ⟨rfl, by omega⟩
  cases z with
  | utc => exact hsame (fun _ => rfl) rfl
  | fixed offset => exact hsame (fun _ => rfl) rfl
  | named name table =>
    cases hshowing : table.showing? l with
    | none => exact absurd ht (not_shows_of_showing? hz hshowing t)
    | some found =>
      have hfirst := showsFirst_of_showing? hz hshowing
      have hwall : (Zone.named name table).wallOffset l = found := by
        show (table.showing? l).getD _ = found
        rw [hshowing]
        rfl
      rw [hwall]
      exact ⟨hfirst.holds, hfirst.first t rfl ht⟩

/-- A time that is never shown has the offset in force when it is taken as universal time. -/
theorem wallOffset_of_never (hz : z.Ordered) (h : ∀ t, ¬z.Shows l t) :
    z.wallOffset l = z.offsetAt l := by
  cases z with
  | utc => rfl
  | fixed => rfl
  | named name table =>
    cases hshowing : table.showing? l with
    | none =>
      show (table.showing? l).getD _ = _
      rw [hshowing]
      rfl
    | some found =>
      have hholds : (Zone.named name table).offsetAt (l - found) = found :=
        (showsFirst_of_showing? hz hshowing).holds
      refine absurd ?_ (h (l - found))
      unfold Shows
      rw [hholds, Int.sub_add_cancel]

/-- Clocks that are behind universal time after the jump skip times before it. -/
theorem Skips.lt_jump (h : z.Skips jump l) (hwest : z.offsetAt jump ≤ 0) : l < jump := by
  have := h.behind
  omega

/-- Clocks that are ahead of universal time before the jump skip times after it. -/
theorem Skips.jump_le (h : z.Skips jump l) (heast : 0 ≤ z.offsetAt (jump - 1)) : jump ≤ l := by
  have := h.before
  omega

theorem SteadyAround.offsetAt_eq_iff (hs : z.SteadyAround jump l) (h : z.Skips jump l) :
    z.offsetAt l = z.offsetAt (jump - 1) ↔ l < jump := by
  have hbefore := h.before
  have hbehind := h.behind
  constructor
  · intro heq
    by_contra hle
    -- behind the jump there is another offset, since the clocks went on
    rw [hs.behind l (Int.not_lt.1 hle) (Int.le_refl l)] at heq
    omega
  · exact hs.before l (Int.le_refl l)

end

section

variable {z : Zone} {l : Timestamp}

/-- The point in time at which clocks show `l` has a date. -/
def HasMoment (z : Zone) (l : Timestamp) : Prop :=
  (Moment.ofWall l (z.wallOffset l.seconds)).utc.inRange = true

theorem HasMoment.ofWall_eq (h : z.HasMoment l) :
    z.ofWall l = Moment.ofWall l (z.wallOffset l.seconds) := by
  have hwall : Moment.ofWall? l (z.wallOffset l.seconds) =
      some (Moment.ofWall l (z.wallOffset l.seconds)) := if_pos h
  unfold ofWall
  rw [hwall, Option.getD_some]

theorem shows_of_wall_convert {t : Timestamp} (h : (z.convert t).wall = l) :
    z.Shows l.seconds t.seconds :=
  congrArg Timestamp.seconds h

/-- A time that clocks show is converted back, to the first moment at which they do. -/
theorem HasMoment.convert_ofWall (h : z.HasMoment l) (hz : z.Ordered) {t : Timestamp}
    (ht : (z.convert t).wall = l) :
    z.convert (z.ofWall l).utc = z.ofWall l ∧ (z.ofWall l).utc.seconds ≤ t.seconds := by
  obtain ⟨hholds, hfirst⟩ := wallOffset_of_shows hz (shows_of_wall_convert ht)
  rw [h.ofWall_eq]
  refine ⟨?_, hfirst⟩
  show Moment.mk _ (z.offsetAt (l.seconds - z.wallOffset l.seconds)) = _
  rw [hholds]
  rfl

theorem HasMoment.offset_ofWall_of_never (h : z.HasMoment l) (hz : z.Ordered)
    (hnever : ∀ t, ¬z.Shows l.seconds t) : (z.ofWall l).offset = z.offsetAt l.seconds := by
  rw [h.ofWall_eq]
  exact wallOffset_of_never hz hnever

end

/-- What clocks of a zone are said to show is always kept. A time that they show is converted back to
itself, at the first of the moments at which they show it. A time that they skip has the offset from
just before the jump exactly if that one is in force at the time taken as universal time; if nothing
else changes in between, this is so for the times before the jump, which are all of them west of
Greenwich and none east of it. -/
theorem wall_time_kept_iff_before_jump {z : Zone} (hz : z.Ordered) (l : Timestamp) :
    (z.ofWall l).wall = l ∧
    (z.HasMoment l →
      (∀ t, (z.convert t).wall = l →
        z.convert (z.ofWall l).utc = z.ofWall l ∧ (z.ofWall l).utc.seconds ≤ t.seconds) ∧
      ∀ jump, z.Skips jump l.seconds →
        ((z.ofWall l).offset = z.offsetAt (jump - 1) ↔
          z.offsetAt l.seconds = z.offsetAt (jump - 1)) ∧
        (z.SteadyAround jump l.seconds →
          ((z.ofWall l).offset = z.offsetAt (jump - 1) ↔ l.seconds < jump)) ∧
        (z.offsetAt jump ≤ 0 → l.seconds < jump) ∧
        (0 ≤ z.offsetAt (jump - 1) → jump ≤ l.seconds)) := by
  refine ⟨z.wall_ofWall l, fun hl => ⟨fun t ht => hl.convert_ofWall hz ht, fun jump hskips => ?_⟩⟩
  rw [hl.offset_ofWall_of_never hz hskips.never]
  exact ⟨Iff.rfl, fun hsteady => hsteady.offsetAt_eq_iff hskips, hskips.lt_jump, hskips.jump_le⟩

/-- Half past two in the night in which the clocks of New York are put forward. -/
theorem wall_time_kept_in_new_york :
    ∃ z : Zone, Zone.parse? "America/New_York" = some z ∧ z.Ordered ∧
      z.HasMoment ⟨1710037800, 0⟩ ∧ z.Skips 1710054000 1710037800 ∧
      (z.ofWall ⟨1710037800, 0⟩).offset = z.offsetAt (1710054000 - 1) := by
  let table : Transitions := ⟨-17762, newYorkChanges ++ Yearly.changes newYorkYearly 2007⟩
  have hz : table.Ordered := by decide +kernel
  have hmoment : (Zone.named "America/New_York" table).HasMoment ⟨1710037800, 0⟩ := by
    unfold HasMoment
    decide +kernel
  have hskips : (Zone.named "America/New_York" table).Skips 1710054000 1710037800 :=
    ⟨not_shows_of_showing? hz (by decide +kernel), by decide +kernel, by decide +kernel⟩
  have hsteady : (Zone.named "America/New_York" table).SteadyAround 1710054000 1710037800 := by
    have hno : ∀ change ∈ table.changes, change.1 ≤ 1710037800 ∨ 1710054000 - 1 < change.1 := by
      decide +kernel
    refine ⟨fun t hle hlt => table.offsetAt_eq_of_no_change (by omega) fun change hc => ?_,
      fun t hle hle' => absurd (Int.le_trans hle hle') (by decide)⟩
    exact (hno change hc).imp_left fun h => Int.le_trans h hle
  have hkept := wall_time_kept_iff_before_jump (z := .named "America/New_York" table) hz
    ⟨1710037800, 0⟩
  have hjump := (hkept.2 hmoment).2 _ hskips
  exact ⟨_, rfl, hz, hmoment, hskips, (hjump.2.1 hsteady).2 (by decide)⟩

/-- Half past two in the night in which the clocks of Berlin are put forward has the offset from
behind the jump. -/
theorem not_wall_time_kept_in_berlin :
    ∃ z : Zone, Zone.parse? "Europe/Berlin" = some z ∧ z.Ordered ∧
      z.Skips 1711846800 1711852200 ∧
      (z.ofWall ⟨1711852200, 0⟩).offset ≠ z.offsetAt (1711846800 - 1) := by
  let table : Transitions := ⟨3208, berlinChanges ++ Yearly.changes berlinYearly 1996⟩
  have hz : table.Ordered := by decide +kernel
  have hskips : (Zone.named "Europe/Berlin" table).Skips 1711846800 1711852200 :=
    ⟨not_shows_of_showing? hz (by decide +kernel), by decide +kernel, by decide +kernel⟩
  exact ⟨_, rfl, hz, hskips, by decide +kernel⟩

end Zone

end Workflow.Time
