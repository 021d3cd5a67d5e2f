import Mathlib.Data.Set.Card
import Workflow.Proofs.Fields
import Workflow.Proofs.Text.Pieces
import Workflow.Schedule.Cache

/-! The cache of schedules cannot be told from reading each text anew, whatever it has forgotten.
While it forgets nothing it holds one schedule for each text that was asked for and not removed
since, and hands out the same one each time. -/
namespace Workflow.Schedule

open Text

theorem parse_trim (s : List Char) : Cron.parse (trim s) = Cron.parse s := by
  unfold Cron.parse
  rw [words_trim]

namespace Cache

def ofCapacity (capacity : Nat) : Cache :=
  { capacity }

/-- Forgets what is remembered under a key. -/
def evict (c : Cache) (key : String) : Cache :=
  { c with entries := c.entries.filter (·.1 ≠ key) }

/-- What happens to a cache: requests, and entries that are forgotten without one. -/
inductive Event where
  | get (s : List Char)
  | invalidate (s : List Char)
  | clear
  | evict (key : String)
  deriving DecidableEq

def after (c : Cache) : Event → Cache
  | .get s => (c.get s).2
  | .invalidate s => c.invalidate s
  | .clear => c.clear
  | .evict key => c.evict key

def afterAll (c : Cache) (events : List Event) : Cache :=
  events.foldl after c

theorem afterAll_append (c : Cache) (events more : List Event) :
    c.afterAll (events ++ more) = (c.afterAll events).afterAll more :=
  List.foldl_append

/-- Whether nothing is remembered under a key behind an event. -/
def Event.Removes (key : String) : Event → Prop
  | .get _ => False
  | .invalidate s => Cache.key s = key
  | .clear => True
  | .evict key' => key' = key

/-- A text that is a schedule was asked for and has not been removed since. -/
def Live (events : List Event) (key : String) : Prop :=
  ∃ before s after, events = before ++ .get s :: after ∧ Cache.key s = key ∧
    (∃ cron, Cron.parse s = .ok cron) ∧ ∀ e ∈ after, ¬e.Removes key

/-- Nothing is forgotten without a request: there was no such event, and at no time were there more
texts to remember than the cache has room for. -/
def Unevicted (capacity : Nat) (events : List Event) : Prop :=
  (∀ key, .evict key ∉ events) ∧
    ∀ before, before <+: events → {key | Live before key}.ncard ≤ capacity

/-- What the entries of a cache always are. -/
structure Sound (c : Cache) : Prop where
  sorted : c.entries.Sorted
  faithful : ∀ key shared, c.entries.get? key = some shared →
    Cron.parse key.toList = .ok shared.cron
  mark_lt : ∀ key shared, c.entries.get? key = some shared → shared.mark < c.reads

theorem parse_key (s : List Char) : Cron.parse (key s).toList = Cron.parse s := by
  unfold key
  rw [String.toList_ofList, parse_trim]

section Get

variable {c : Cache} {s : List Char}

theorem get_of_some {shared : Shared} (h : c.entries.get? (key s) = some shared) :
    c.get s = (.ok shared, c) := by
  unfold get
  rw [h]

theorem get_of_parse {cron : Cron} (h : c.entries.get? (key s) = none)
    (hp : Cron.parse s = .ok cron) :
    c.get s = (.ok ⟨c.reads, cron⟩, c.store (key s) ⟨c.reads, cron⟩) := by
  unfold get
  rw [h, parse_trim, hp]

theorem get_of_faults {faults : List Fault} (h : c.entries.get? (key s) = none)
    (hp : Cron.parse s = .error faults) : c.get s = (.error faults, c) := by
  unfold get
  rw [h, parse_trim, hp]

theorem get?_store (c : Cache) (key : String) (shared : Shared) (k : String) :
    (c.store key shared).entries.get? k =
      if k = key ∧ c.size < c.capacity then some shared else c.entries.get? k := by
  unfold store
  dsimp only
  by_cases hsize : c.size < c.capacity
  · rw [if_pos hsize, Fields.get?_insert]
    by_cases hk : k = key
    · rw [if_pos hk, if_pos ⟨hk, hsize⟩]
    · rw [if_neg hk, if_neg fun h => hk h.1]
  · rw [if_neg hsize, if_neg fun h => hsize h.2]

end Get

namespace Sound

variable {c : Cache}

theorem ofCapacity (capacity : Nat) : (Cache.ofCapacity capacity).Sound where
  sorted := List.Pairwise.nil
  faithful _ _ h := absurd h (by simp [Cache.ofCapacity])
  mark_lt _ _ h := absurd h (by simp [Cache.ofCapacity])

/-- Entries can be taken out. -/
theorem of_subset (h : c.Sound) {entries : Fields Shared} (hs : entries.Sorted)
    (hsub : ∀ key shared, entries.get? key = some shared → c.entries.get? key = some shared) :
    { c with entries := entries }.Sound where
  sorted := hs
  faithful key shared hk := h.faithful key shared (hsub key shared hk)
  mark_lt key shared hk := h.mark_lt key shared (hsub key shared hk)

theorem evict (h : c.Sound) (key : String) : (c.evict key).Sound := by
  apply h.of_subset (h.sorted.filter _)
  intro k shared hk
  rw [Fields.get?_filter_ne] at hk
  by_cases heq : k = key
  · rw [if_pos heq] at hk
    exact absurd hk (by simp)
  · rwa [if_neg heq] at hk

theorem store (h : c.Sound) {s : List Char} {cron : Cron} (hp : Cron.parse s = .ok cron) :
    (c.store (key s) ⟨c.reads, cron⟩).Sound := by
  have hcases : ∀ k shared, (c.store (key s) ⟨c.reads, cron⟩).entries.get? k = some shared →
      (k = key s ∧ shared = ⟨c.reads, cron⟩) ∨ c.entries.get? k = some shared := by
    intro k shared hk
    rw [get?_store] at hk
    split at hk
    · rename_i hnew
      exact Or.inl ⟨hnew.1, (Option.some.inj hk).symm⟩
    · exact Or.inr hk
  refine ⟨?_, ?_, ?_⟩
  · unfold Cache.store
    dsimp only
    split
    · exact Fields.sorted_insert h.sorted _ _
    · exact h.sorted
  · intro k shared hk
    rcases hcases k shared hk with ⟨rfl, rfl⟩ | hold
    · rw [parse_key]
      exact hp
    · exact h.faithful k shared hold
  · intro k shared hk
    rcases hcases k shared hk with ⟨-, rfl⟩ | hold
    · exact Nat.lt_succ_self _
    · exact (h.mark_lt k shared hold).trans (Nat.lt_succ_self _)

theorem get (h : c.Sound) (s : List Char) : (c.get s).2.Sound := by
  cases hk : c.entries.get? (key s) with
  | some shared =>
    rw [get_of_some hk]
    exact h
  | none =>
    cases hp : Cron.parse s with
    | ok cron =>
      rw [get_of_parse hk hp]
      exact h.store hp
    | error faults =>
      rw [get_of_faults hk hp]
      exact h

theorem after (h : c.Sound) (e : Event) : (c.after e).Sound := by
  cases e with
  | get s => exact h.get s
  | invalidate s => exact h.evict (key s)
  | clear => exact h.of_subset List.Pairwise.nil fun _ _ hk => absurd hk (by simp)
  | evict key => exact h.evict key

theorem afterAll (h : c.Sound) (events : List Event) : (c.afterAll events).Sound := by
  induction events generalizing c with
  | nil => exact h
  | cons e events ih => exact ih (h.after e)

/-- A request is answered with what reading the text gives. -/
theorem cron_get (h : c.Sound) (s : List Char) : (c.get s).1.map (·.cron) = Cron.parse s := by
  cases hk : c.entries.get? (key s) with
  | some shared =>
    rw [get_of_some hk, ← parse_key, h.faithful _ _ hk]
    rfl
  | none =>
    cases hp : Cron.parse s with
    | ok cron =>
      rw [get_of_parse hk hp]
      rfl
    | error faults =>
      rw [get_of_faults hk hp]
      rfl

theorem get_of_error (h : c.Sound) {s : List Char} {faults : List Fault}
    (hp : Cron.parse s = .error faults) : c.get s = (.error faults, c) := by
  cases hk : c.entries.get? (key s) with
  | some shared =>
    -- what is remembered was read
    have hread := h.faithful _ _ hk
    rw [parse_key, hp] at hread
    exact absurd hread (by simp)
  | none => exact get_of_faults hk hp

theorem textFiresAt (h : c.Sound) (s : List Char) (t : Time.Timestamp) :
    (c.textFiresAt s t).1 = Cron.textFiresAt s t := by
  have hcron := h.cron_get s
  unfold Cache.textFiresAt Cron.textFiresAt
  rw [← hcron]
  obtain ⟨answer, next⟩ := c.get s
  cases answer with
  | ok shared => rfl
  | error faults => rfl

theorem remembered_eq_keys (h : c.Sound) :
    {key | (c.entries.get? key).isSome} = (c.entries.keys.toFinset : Set String) := by
  ext key
  rw [Finset.mem_coe, List.mem_toFinset, Set.mem_ofPred_eq, Option.isSome_iff_exists]
  unfold Fields.keys
  rw [List.mem_map]
  constructor
  · rintro ⟨shared, hk⟩
    exact ⟨_, Fields.mem_of_lookup hk, rfl⟩
  · rintro ⟨⟨k, shared⟩, hmem, rfl⟩
    exact ⟨shared, Fields.get?_eq_some_of_mem h.sorted hmem⟩

/-- There are as many entries as keys with a value. -/
theorem ncard_remembered (h : c.Sound) : {key | (c.entries.get? key).isSome}.ncard = c.size := by
  have hnodup : c.entries.keys.Nodup := by
    unfold Fields.keys
    rw [List.Nodup, List.pairwise_map]
    refine h.sorted.imp ?_
    intro a b hlt heq
    exact String.lt_irrefl a.1 (heq ▸ hlt)
  rw [h.remembered_eq_keys, Set.ncard_coe_finset, List.toFinset_card_of_nodup hnodup]
  exact List.length_map _

end Sound

theorem live_nil (key : String) : ¬Live [] key := by
  rintro ⟨before, s, after, heq, -⟩
  exact absurd heq (by simp)

theorem live_append_singleton {events : List Event} {e : Event} {k : String} :
    Live (events ++ [e]) k ↔
      (∃ s cron, e = .get s ∧ key s = k ∧ Cron.parse s = .ok cron) ∨
        (Live events k ∧ ¬e.Removes k) := by
  constructor
  · rintro ⟨before, s, after, heq, hk, hcron, hafter⟩
    rcases List.eq_nil_or_concat after with rfl | ⟨front, last, rfl⟩
    · obtain ⟨-, he⟩ := List.append_inj' heq rfl
      obtain ⟨cron, hcron⟩ := hcron
      exact Or.inl ⟨s, cron, List.singleton_inj.1 he, hk, hcron⟩
    · rw [List.concat_eq_append, ← List.cons_append, ← List.append_assoc] at heq
      obtain ⟨hevents, he⟩ := List.append_inj' heq rfl
      obtain rfl := List.singleton_inj.1 he
      refine Or.inr ⟨⟨before, s, front, hevents, hk, hcron, ?_⟩, hafter e (by simp)⟩
      intro e' he'
      exact hafter e' (by simp [he'])
  · rintro (⟨s, cron, rfl, hk, hcron⟩ | ⟨⟨before, s, after, rfl, hk, hcron, hafter⟩, he⟩)
    · exact ⟨events, s, [], rfl, hk, ⟨cron, hcron⟩, List.forall_mem_nil _⟩
    · refine ⟨before, s, after ++ [e], by simp, hk, hcron, ?_⟩
      intro e' he'
      rcases List.mem_append.1 he' with he' | he'
      · exact hafter e' he'
      · rwa [List.mem_singleton.1 he']

theorem Unevicted.of_prefix {capacity : Nat} {events before : List Event}
    (h : Unevicted capacity events) (hp : before <+: events) : Unevicted capacity before :=
  ⟨fun key hmem => h.1 key (hp.subset hmem), fun _ hmore => h.2 _ (hmore.trans hp)⟩

/-- What an event leaves under a key that it neither asks for nor removes. -/
theorem get?_after_of_not_removes {c : Cache} {e : Event} {k : String} (hr : ¬e.Removes k)
    (hg : ∀ s, e = .get s → key s ≠ k) : (c.after e).entries.get? k = c.entries.get? k := by
  cases e with
  | get s =>
    have hk : key s ≠ k := hg s rfl
    show (c.get s).2.entries.get? k = _
    cases hs : c.entries.get? (key s) with
    | some shared => rw [get_of_some hs]
    | none =>
      cases hp : Cron.parse s with
      | ok cron => rw [get_of_parse hs hp, get?_store, if_neg fun h => hk h.1.symm]
      | error faults => rw [get_of_faults hs hp]
  | invalidate s =>
    have hk : key s ≠ k := hr
    exact (Fields.get?_filter_ne _ _ _).trans (if_neg fun h => hk h.symm)
  | clear => exact absurd trivial hr
  | evict key =>
    have hk : key ≠ k := hr
    exact (Fields.get?_filter_ne _ _ _).trans (if_neg fun h => hk h.symm)

theorem get?_after_of_removes {c : Cache} {e : Event} {k : String} (hr : e.Removes k) :
    (c.after e).entries.get? k = none := by
  cases e with
  | get s => exact absurd hr (fun h => h)
  | invalidate s =>
    have hk : key s = k := hr
    exact (Fields.get?_filter_ne _ _ _).trans (if_pos hk.symm)
  | clear => rfl
  | evict key =>
    have hk : key = k := hr
    exact (Fields.get?_filter_ne _ _ _).trans (if_pos hk.symm)

theorem get?_after_of_error {c : Cache} {s : List Char} {faults : List Fault} (h : c.Sound)
    (hp : Cron.parse s = .error faults) (k : String) :
    (c.after (.get s)).entries.get? k = c.entries.get? k := by
  show (c.get s).2.entries.get? k = _
  rw [h.get_of_error hp]

/-- If there is room for what is read, then an event adds the text that it asks for, if that is a
schedule, and takes out what it removes. -/
theorem isSome_after_iff {c : Cache} (h : c.Sound) {e : Event}
    (hroom : ∀ s cron, e = .get s → Cron.parse s = .ok cron →
      c.entries.get? (key s) = none → c.size < c.capacity) (k : String) :
    ((c.after e).entries.get? k).isSome ↔
      (∃ s cron, e = .get s ∧ key s = k ∧ Cron.parse s = .ok cron) ∨
        ((c.entries.get? k).isSome ∧ ¬e.Removes k) := by
  by_cases hread : ∃ s cron, e = .get s ∧ key s = k ∧ Cron.parse s = .ok cron
  · refine iff_of_true ?_ (Or.inl hread)
    obtain ⟨s, cron, rfl, rfl, hp⟩ := hread
    show ((c.get s).2.entries.get? (key s)).isSome
    cases hk : c.entries.get? (key s) with
    | some shared => rw [get_of_some hk, hk, Option.isSome_some]
    | none =>
      have hsize := hroom s cron rfl hp hk
      rw [get_of_parse hk hp, get?_store, if_pos ⟨rfl, hsize⟩, Option.isSome_some]
  · rw [or_iff_right hread]
    by_cases hr : e.Removes k
    · rw [get?_after_of_removes hr]
      exact iff_of_false (by simp) fun hno => hno.2 hr
    · -- what is no schedule changes nothing, and other keys are not concerned
      have hsame : (c.after e).entries.get? k = c.entries.get? k := by
        by_cases hg : ∃ s, e = .get s ∧ key s = k
        · obtain ⟨s, rfl, hk⟩ := hg
          cases hp : Cron.parse s with
          | ok cron => exact absurd ⟨s, cron, rfl, hk, hp⟩ hread
          | error faults => exact get?_after_of_error h hp k
        · exact get?_after_of_not_removes hr fun s he hk => hg ⟨s, he, hk⟩
      rw [hsame, and_iff_left hr]

theorem capacity_after (c : Cache) (e : Event) : (c.after e).capacity = c.capacity := by
  cases e with
  | get s =>
    show (c.get s).2.capacity = _
    unfold get
    split
    · rfl
    · split
      · rfl
      · rfl
  | invalidate s => rfl
  | clear => rfl
  | evict key => rfl

theorem capacity_afterAll (c : Cache) (events : List Event) :
    (c.afterAll events).capacity = c.capacity := by
  induction events generalizing c with
  | nil => rfl
  | cons e events ih => exact (ih (c.after e)).trans (capacity_after c e)

theorem sound_run (capacity : Nat) (events : List Event) :
    ((ofCapacity capacity).afterAll events).Sound :=
  (Sound.ofCapacity capacity).afterAll events

/-- There is room for one more text that is not remembered yet. -/
theorem size_lt_of_unevicted {capacity : Nat} {events : List Event} {s : List Char} {cron : Cron}
    (hu : Unevicted capacity (events ++ [.get s]))
    (hlive : ∀ k, (((ofCapacity capacity).afterAll events).entries.get? k).isSome ↔ Live events k)
    (hp : Cron.parse s = .ok cron)
    (hnew : ((ofCapacity capacity).afterAll events).entries.get? (key s) = none) :
    ((ofCapacity capacity).afterAll events).size < capacity := by
  have hsound := sound_run capacity events
  have hsize := hsound.ncard_remembered
  have hset := hsound.remembered_eq_keys
  simp only [hlive] at hsize hset
  have hfinite : {k | Live events k}.Finite := by
    rw [hset]
    exact Finset.finite_toSet _
  have hnot : key s ∉ {k | Live events k} := by
    intro hmem
    have hsome := (hlive (key s)).2 hmem
    rw [hnew] at hsome
    exact absurd hsome (by simp)
  have hinsert : {k | Live (events ++ [.get s]) k} = insert (key s) {k | Live events k} := by
    ext k
    rw [Set.mem_insert_iff, Set.mem_ofPred_eq, Set.mem_ofPred_eq, live_append_singleton]
    constructor
    · rintro (⟨s', cron', he, hk, -⟩ | ⟨hl, -⟩)
      · rw [← Event.get.inj he] at hk
        exact Or.inl hk.symm
      · exact Or.inr hl
    · rintro (hk | hl)
      · exact Or.inl ⟨s, cron, rfl, hk.symm, hp⟩
      · exact Or.inr ⟨hl, fun h => h⟩
  have hroom := hu.2 _ (List.prefix_refl _)
  rw [hinsert, Set.ncard_insert_of_notMem hnot hfinite, hsize] at hroom
  exact hroom

/-- What is remembered are the texts that were asked for and not removed since. -/
theorem isSome_iff_live {capacity : Nat} {events : List Event} (hu : Unevicted capacity events)
    (k : String) :
    (((ofCapacity capacity).afterAll events).entries.get? k).isSome ↔ Live events k := by
  induction events using List.reverseRecOn generalizing k with
  | nil => exact iff_of_false (by simp [afterAll, ofCapacity]) (live_nil k)
  | append_singleton events e ih =>
    have hlive := ih (hu.of_prefix (List.prefix_append _ _))
    have hroom : ∀ s cron, e = .get s → Cron.parse s = .ok cron →
        ((ofCapacity capacity).afterAll events).entries.get? (key s) = none →
        ((ofCapacity capacity).afterAll events).size <
          ((ofCapacity capacity).afterAll events).capacity := by
      rintro s cron rfl hp hnew
      rw [capacity_afterAll]
      exact size_lt_of_unevicted hu hlive hp hnew
    have hstep := isSome_after_iff (sound_run capacity events) hroom k
    rw [hlive] at hstep
    rw [afterAll_append, live_append_singleton]
    exact hstep

theorem size_eq_ncard_live {capacity : Nat} {events : List Event} (hu : Unevicted capacity events) :
    ((ofCapacity capacity).afterAll events).size = {key | Live events key}.ncard := by
  have hsize := (sound_run capacity events).ncard_remembered
  simp only [isSome_iff_live hu] at hsize
  exact hsize.symm

theorem get_kept {c : Cache} {k : String} {shared : Shared} {events : List Event}
    (hk : c.entries.get? k = some shared) (hr : ∀ e ∈ events, ¬e.Removes k) :
    (c.afterAll events).entries.get? k = some shared := by
  induction events generalizing c with
  | nil => exact hk
  | cons e events ih =>
    obtain ⟨he, hevents⟩ := List.forall_mem_cons.1 hr
    refine ih ?_ hevents
    by_cases hg : ∃ s, e = .get s ∧ key s = k
    · obtain ⟨s, rfl, rfl⟩ := hg
      show (c.get s).2.entries.get? (key s) = _
      rw [get_of_some hk]
      exact hk
    · rw [get?_after_of_not_removes he fun s heq hs => hg ⟨s, heq, hs⟩]
      exact hk

/-- All that is remembered under a key was read behind the schedule of a mark. -/
def Newer (c : Cache) (mark : Nat) (k : String) : Prop :=
  mark < c.reads ∧ ∀ shared, c.entries.get? k = some shared → mark < shared.mark

theorem reads_le_after (c : Cache) (e : Event) : c.reads ≤ (c.after e).reads := by
  cases e with
  | get s =>
    show c.reads ≤ (c.get s).2.reads
    cases hk : c.entries.get? (key s) with
    | some shared => rw [get_of_some hk]
    | none =>
      cases hp : Cron.parse s with
      | ok cron =>
        rw [get_of_parse hk hp]
        exact Nat.le_succ _
      | error faults => rw [get_of_faults hk hp]
  | invalidate s => exact Nat.le_refl _
  | clear => exact Nat.le_refl _
  | evict key => exact Nat.le_refl _

theorem Newer.after {c : Cache} {mark : Nat} {k : String} (h : c.Newer mark k) (e : Event) :
    (c.after e).Newer mark k := by
  obtain ⟨hreads, hnew⟩ := h
  refine ⟨hreads.trans_le (reads_le_after c e), ?_⟩
  intro shared hk
  by_cases hr : e.Removes k
  · rw [get?_after_of_removes hr] at hk
    exact absurd hk (by simp)
  · by_cases hg : ∃ s, e = .get s ∧ key s = k
    · obtain ⟨s, rfl, rfl⟩ := hg
      change (c.get s).2.entries.get? (key s) = _ at hk
      cases hs : c.entries.get? (key s) with
      | some old =>
        rw [get_of_some hs] at hk
        exact hnew shared hk
      | none =>
        cases hp : Cron.parse s with
        | ok cron =>
          rw [get_of_parse hs hp, get?_store] at hk
          split at hk
          · exact Option.some.inj hk ▸ hreads
          · exact hnew shared hk
        | error faults =>
          rw [get_of_faults hs hp] at hk
          exact hnew shared hk
    · rw [get?_after_of_not_removes hr fun s he hs => hg ⟨s, he, hs⟩] at hk
      exact hnew shared hk

theorem Newer.afterAll {c : Cache} {mark : Nat} {k : String} (h : c.Newer mark k)
    (events : List Event) : (c.afterAll events).Newer mark k := by
  induction events generalizing c with
  | nil => exact h
  | cons e events ih => exact ih (h.after e)

/-- From the removal of a key on only newer schedules are found under it. -/
theorem newer_of_removes {c : Cache} {mark : Nat} {k : String} {events : List Event} {e : Event}
    (hmark : mark < c.reads) (he : e ∈ events) (hr : e.Removes k) :
    (c.afterAll events).Newer mark k := by
  induction events generalizing c with
  | nil => exact absurd he List.not_mem_nil
  | cons e' events ih =>
    have hreads : mark < (c.after e').reads := hmark.trans_le (reads_le_after c e')
    rcases List.mem_cons.1 he with rfl | he
    · have hnew : (c.after e).Newer mark k := by
        refine ⟨hreads, fun shared hk => ?_⟩
        rw [get?_after_of_removes hr] at hk
        exact absurd hk (by simp)
      exact hnew.afterAll events
    · exact ih hreads he

theorem get_of_newer {c : Cache} {mark : Nat} {s : List Char} {cron : Cron}
    (h : c.Newer mark (key s)) (hp : Cron.parse s = .ok cron) :
    ∃ shared, (c.get s).1 = .ok shared ∧ mark < shared.mark := by
  cases hk : c.entries.get? (key s) with
  | some shared =>
    rw [get_of_some hk]
    exact ⟨shared, rfl, h.2 shared hk⟩
  | none =>
    rw [get_of_parse hk hp]
    exact ⟨_, rfl, h.1⟩

/-- A schedule that is handed out is remembered, if there is room. -/
theorem get_remembered {c : Cache} (h : c.Sound) {s : List Char} {cron : Cron}
    (hp : Cron.parse s = .ok cron) (hsome : ((c.get s).2.entries.get? (key s)).isSome) :
    ∃ shared, (c.get s).1 = .ok shared ∧ (c.get s).2.entries.get? (key s) = some shared ∧
      shared.mark < (c.get s).2.reads := by
  cases hk : c.entries.get? (key s) with
  | some shared =>
    rw [get_of_some hk]
    exact ⟨shared, rfl, hk, h.mark_lt _ _ hk⟩
  | none =>
    rw [get_of_parse hk hp, get?_store] at hsome
    rw [get_of_parse hk hp, get?_store]
    by_cases hroom : c.size < c.capacity
    · exact ⟨_, rfl, if_pos ⟨rfl, hroom⟩, Nat.lt_succ_self _⟩
    · rw [if_neg fun hno => hroom hno.2, hk] at hsome
      exact absurd hsome (by simp)

/-- The same text gets the same schedule again just if it has not been removed in between. -/
theorem get_eq_iff {capacity : Nat} {before mid : List Event} {s s' : List Char} {cron : Cron}
    (hu : Unevicted capacity (before ++ .get s :: mid)) (hkey : key s = key s')
    (hp : Cron.parse s = .ok cron) :
    (((ofCapacity capacity).afterAll before).get s).1 =
        (((ofCapacity capacity).afterAll (before ++ .get s :: mid)).get s').1 ↔
      ∀ e ∈ mid, ¬e.Removes (key s) := by
  have hp' : Cron.parse s' = .ok cron := by
    rw [← parse_key s', ← hkey, parse_key]
    exact hp
  have hprefix : before ++ [.get s] <+: before ++ .get s :: mid :=
    ⟨mid, by simp⟩
  have hlive : Live (before ++ [.get s]) (key s) :=
    live_append_singleton.2 (Or.inl ⟨s, cron, rfl, rfl, hp⟩)
  have hsome := (isSome_iff_live (hu.of_prefix hprefix) (key s)).2 hlive
  rw [afterAll_append] at hsome
  obtain ⟨shared, hanswer, hk, hmark⟩ :=
    get_remembered (sound_run capacity before) hp hsome
  rw [afterAll_append, hanswer]
  change Except.ok shared = (((((ofCapacity capacity).afterAll before).get s).2.afterAll mid).get
    s').1 ↔ _
  constructor
  · intro heq e he hr
    have hnew := newer_of_removes hmark he hr
    rw [hkey] at hnew
    obtain ⟨later, hlater, hlt⟩ := get_of_newer hnew hp'
    rw [hlater] at heq
    exact absurd (Except.ok.inj heq ▸ hlt) (Nat.lt_irrefl _)
  · intro hr
    have hkept := get_kept hk hr
    rw [hkey] at hkept
    rw [get_of_some hkept]

/-- The text that an event asks for. -/
def Event.asked? : Event → Option String
  | .get s => some (Cache.key s)
  | _ => none

theorem unevicted_of_length_le {capacity : Nat} {events : List Event}
    (hno : ∀ key, .evict key ∉ events) (hlength : events.length ≤ capacity) :
    Unevicted capacity events := by
  refine ⟨hno, fun before hprefix => ?_⟩
  have hsubset : {key | Live before key} ⊆ ((before.filterMap Event.asked?).toFinset : Set String) := by
    rintro key ⟨front, s, after, rfl, rfl, -, -⟩
    rw [Finset.mem_coe, List.mem_toFinset, List.mem_filterMap]
    exact ⟨.get s, by simp, rfl⟩
  calc {key | Live before key}.ncard
      ≤ ((before.filterMap Event.asked?).toFinset : Set String).ncard :=
        Set.ncard_le_ncard hsubset (Finset.finite_toSet _)
    _ = (before.filterMap Event.asked?).toFinset.card := Set.ncard_coe_finset _
    _ ≤ (before.filterMap Event.asked?).length := List.toFinset_card_le _
    _ ≤ before.length := List.length_filterMap_le _ _
    _ ≤ events.length := hprefix.length_le
    _ ≤ capacity := hlength

/-- Whatever has happened to a cache, it answers each request with what reading the text gives, and
times match a text in the same way; what is no schedule is not remembered, and leaves it as it is.
If nothing was forgotten without a request, then there are as many entries as texts that were asked
for and not removed since, and a text that was asked for before gets the same schedule again just if
it has not been removed in between. -/
theorem run_transparent (capacity : Nat) (events : List Event) :
    (∀ s, (((ofCapacity capacity).afterAll events).get s).1.map (·.cron) = Cron.parse s) ∧
    (∀ s t, (((ofCapacity capacity).afterAll events).textFiresAt s t).1 = Cron.textFiresAt s t) ∧
    (∀ key shared, (key, shared) ∈ ((ofCapacity capacity).afterAll events).entries →
      Cron.parse key.toList = .ok shared.cron) ∧
    (∀ s faults, Cron.parse s = .error faults →
      ((ofCapacity capacity).afterAll events).get s =
        (.error faults, (ofCapacity capacity).afterAll events)) ∧
    (Unevicted capacity events →
      ((ofCapacity capacity).afterAll events).size = {key | Live events key}.ncard ∧
      ∀ before s mid s' cron, events = before ++ .get s :: mid → trim s = trim s' →
        Cron.parse s = .ok cron →
        ((((ofCapacity capacity).afterAll before).get s).1 =
            (((ofCapacity capacity).afterAll events).get s').1 ↔
          ∀ e ∈ mid, ¬e.Removes (key s))) := by
  have hsound := sound_run capacity events
  refine ⟨hsound.cron_get, hsound.textFiresAt, ?_, ?_, ?_⟩
  · intro key shared hmem
    exact hsound.faithful key shared (Fields.get?_eq_some_of_mem hsound.sorted hmem)
  · intro s faults hp
    exact hsound.get_of_error hp
  · intro hu
    refine ⟨size_eq_ncard_live hu, ?_⟩
    rintro before s mid s' cron rfl htrim hp
    have hkey : key s = key s' := congrArg String.ofList htrim
    exact get_eq_iff hu hkey hp

/-- A text that is asked for again with white space around it, after another one was removed. -/
theorem run_transparent_every_five_minutes :
    ((ofCapacity 8).get "*/5 * * * *".toList).1 =
      (((ofCapacity 8).afterAll
        [.get "*/5 * * * *".toList, .get "0 * * * *".toList, .get "61 * * * *".toList,
          .invalidate " 0 * * * *".toList]).get "  */5 * * * * ".toList).1 := by
  obtain ⟨-, -, -, -, h⟩ := run_transparent 8
    [.get "*/5 * * * *".toList, .get "0 * * * *".toList, .get "61 * * * *".toList,
      .invalidate " 0 * * * *".toList]
  have hu : Unevicted 8 [.get "*/5 * * * *".toList, .get "0 * * * *".toList,
      .get "61 * * * *".toList, .invalidate " 0 * * * *".toList] :=
    unevicted_of_length_le (by simp) (by decide)
  have hread : Cron.parse "*/5 * * * *".toList =
      .ok ⟨.one (.step none 5), .any, .any, .any, .any⟩ := by
    rfl
  have hkept : ∀ e ∈ [.get "0 * * * *".toList, .get "61 * * * *".toList,
      .invalidate " 0 * * * *".toList], ¬Event.Removes (key "*/5 * * * *".toList) e := by
    refine List.forall_mem_cons.2 ⟨fun h => h, List.forall_mem_cons.2 ⟨fun h => h, ?_⟩⟩
    rw [List.forall_mem_singleton]
    show ¬key " 0 * * * *".toList = key "*/5 * * * *".toList
    decide
  exact ((h hu).2 [] _ _ _ _ rfl rfl hread).2 hkept

end Cache

end Workflow.Schedule
