import Mathlib.Tactic.Common
import Workflow.Text.Search

/-! Where a text occurs in another one: the first occurrence and the last, and the pieces between
all of them. -/
namespace Workflow.Text

variable {p s : List Char}

theorem cutLoop_eq (p seen s : List Char) :
    cutLoop p seen s = (cut? p s).map fun cut => (seen.reverse ++ cut.1, cut.2) := by
  unfold cut?
  induction s generalizing seen with
  | nil =>
    unfold cutLoop
    split
    · simp
    · rfl
  | cons c s ih =>
    unfold cutLoop
    split
    · simp
    · rw [ih (c :: seen), ih [c], Option.map_map]
      simp only [Function.comp_def, List.reverse_cons, List.append_assoc, List.reverse_nil,
        List.nil_append]

theorem cut?_nil (s : List Char) : cut? [] s = some ([], s) := by
  cases s <;> rfl

theorem cut?_cons_of_starts {c : Char} (h : p <+: c :: s) :
    cut? p (c :: s) = some ([], (c :: s).drop p.length) := by
  unfold cut? cutLoop
  rw [if_pos (List.isPrefixOf_iff_prefix.2 h)]
  rfl

theorem cut?_cons_of_not_starts {c : Char} (h : ¬ p <+: c :: s) :
    cut? p (c :: s) = (cut? p s).map fun cut => (c :: cut.1, cut.2) := by
  show cutLoop p [] (c :: s) = _
  unfold cutLoop
  rw [if_neg (by rwa [List.isPrefixOf_iff_prefix]), cutLoop_eq]
  rfl

/-- Nothing is found if and only if the text occurs nowhere. -/
theorem cut?_eq_none_iff : cut? p s = none ↔ ∀ i, ¬ p <+: s.drop i := by
  induction s with
  | nil =>
    cases p with
    | nil => exact ⟨nofun, fun hnone => absurd List.nil_prefix (hnone 0)⟩
    | cons d p =>
      refine ⟨fun _ i => ?_, fun _ => rfl⟩
      rw [List.drop_nil, List.prefix_nil]
      exact List.cons_ne_nil d p
  | cons c s ih =>
    by_cases h : p <+: c :: s
    · rw [cut?_cons_of_starts h]
      exact ⟨nofun, fun hnone => absurd h (hnone 0)⟩
    · rw [cut?_cons_of_not_starts h, Option.map_eq_none_iff, ih]
      constructor
      · intro hrest i
        cases i with
        | zero => exact h
        | succ i => exact hrest i
      · exact fun hnone i => hnone (i + 1)

/-- What is found is the first occurrence. -/
theorem not_prefix_of_cut? {before after : List Char} (h : cut? p s = some (before, after)) :
    ∀ j < before.length, ¬ p <+: s.drop j := by
  induction s generalizing before with
  | nil =>
    cases p with
    | nil =>
      rw [cut?_nil] at h
      cases h
      nofun
    | cons d p => cases h
  | cons c s ih =>
    by_cases hp : p <+: c :: s
    · rw [cut?_cons_of_starts hp] at h
      cases h
      nofun
    · rw [cut?_cons_of_not_starts hp, Option.map_eq_some_iff] at h
      obtain ⟨⟨before, after⟩, h, heq⟩ := h
      cases heq
      intro j hj
      cases j with
      | zero => exact hp
      | succ j => exact ih h j (Nat.lt_of_succ_lt_succ hj)

theorem prefix_of_cut? {before after : List Char} (h : cut? p s = some (before, after)) :
    p <+: s.drop before.length := by
  obtain rfl := cut?_append h
  rw [List.append_assoc, List.drop_left]
  exact List.prefix_append p after

/-- A position is that of the first occurrence if there is none before. -/
theorem indexOf?_eq_some_iff {i : Nat} :
    indexOf? p s = some i ↔ p <+: s.drop i ∧ ∀ j < i, ¬ p <+: s.drop j := by
  unfold indexOf?
  cases h : cut? p s with
  | none =>
    have hnone := cut?_eq_none_iff.1 h
    exact ⟨nofun, fun ⟨hi, _⟩ => absurd hi (hnone i)⟩
  | some cut =>
    obtain ⟨before, after⟩ := cut
    have hat := prefix_of_cut? h
    have hfirst := not_prefix_of_cut? h
    rw [Option.map_some, Option.some_inj]
    constructor
    · rintro rfl
      exact ⟨hat, hfirst⟩
    · rintro ⟨hi, hbefore⟩
      exact Nat.le_antisymm (Nat.le_of_not_lt fun hlt => hfirst i hlt hi)
        (Nat.le_of_not_lt fun hlt => hbefore _ hlt hat)

theorem isSome_cut?_iff : (cut? p s).isSome = true ↔ ∃ i, p <+: s.drop i := by
  rw [← Option.ne_none_iff_isSome, ne_eq, cut?_eq_none_iff]
  simp only [not_forall, not_not]

theorem lastIndexLoop_spec (hp : p ≠ []) (s : List Char) (i : Nat) (best : Option Nat) :
    (∃ j, p <+: s.drop j ∧ (∀ k, j < k → ¬ p <+: s.drop k) ∧
        lastIndexLoop p i best s = some (i + j)) ∨
      (∀ j, ¬ p <+: s.drop j) ∧ lastIndexLoop p i best s = best := by
  induction s generalizing i best with
  | nil =>
    refine Or.inr ⟨fun j => ?_, ?_⟩
    · rwa [List.drop_nil, List.prefix_nil]
    · unfold lastIndexLoop
      rw [if_neg (by rwa [List.isEmpty_iff])]
  | cons c s ih =>
    unfold lastIndexLoop
    rcases ih (i + 1) (if p.isPrefixOf (c :: s) then some i else best) with
      ⟨j, hj, hlast, heq⟩ | ⟨hnone, heq⟩
    · refine Or.inl ⟨j + 1, hj, fun k hk => ?_, by rw [heq, Nat.add_right_comm, Nat.add_assoc]⟩
      obtain ⟨k, rfl⟩ := Nat.exists_eq_add_of_lt hk
      exact hlast (j + 1 + k) (by omega)
    · have hbehind (k : Nat) (hk : 0 < k) : ¬ p <+: (c :: s).drop k := by
        obtain ⟨k, rfl⟩ := Nat.exists_eq_add_of_lt hk
        rw [Nat.zero_add]
        exact hnone k
      rw [heq]
      by_cases h : p <+: c :: s
      · rw [if_pos (List.isPrefixOf_iff_prefix.2 h)]
        exact Or.inl ⟨0, h, hbehind, rfl⟩
      · rw [if_neg (by rwa [List.isPrefixOf_iff_prefix])]
        refine Or.inr ⟨fun k => ?_, rfl⟩
        cases k with
        | zero => exact h
        | succ k => exact hnone k

theorem add_length_le_of_prefix_drop (hp : p ≠ []) {i : Nat} (h : p <+: s.drop i) :
    i + p.length ≤ s.length := by
  have hle := h.length_le
  have := List.length_pos_iff.2 hp
  rw [List.length_drop] at hle
  omega

/-- The last position has an occurrence, and none behind it. -/
theorem lastIndexOf?_spec (hp : p ≠ []) (s : List Char) :
    (∃ i, p <+: s.drop i ∧ (∀ k, i < k → ¬ p <+: s.drop k) ∧ lastIndexOf? p s = some i) ∨
      cut? p s = none ∧ lastIndexOf? p s = none := by
  rw [cut?_eq_none_iff]
  rcases lastIndexLoop_spec hp s 0 none with ⟨i, hi, hlast, heq⟩ | h
  · exact Or.inl ⟨i, hi, hlast, by rw [lastIndexOf?, heq, Nat.zero_add]⟩
  · exact Or.inr h

theorem length_after_lt (hp : p ≠ []) {before after : List Char}
    (h : cut? p s = some (before, after)) : after.length < s.length := by
  have hlength := congrArg List.length (cut?_append h)
  have := List.length_pos_iff.2 hp
  simp only [List.length_append] at hlength
  omega

/-- What holds of texts without an occurrence, and of a text if it holds of what is behind its first
occurrence, holds of all texts. -/
theorem cut_induction {motive : List Char → Prop} (hp : p ≠ [])
    (none : ∀ s, cut? p s = none → motive s)
    (some : ∀ s before after, cut? p s = some (before, after) → motive after → motive s)
    (s : List Char) : motive s := by
  induction hn : s.length using Nat.strongRecOn generalizing s with
  | ind n ih =>
    subst hn
    cases h : cut? p s with
    | none => exact none s h
    | some cut => exact some s cut.1 cut.2 h (ih _ (length_after_lt hp h) _ rfl)

theorem splitLoop_of_none {done : List (List Char)} (h : p = [] ∨ cut? p s = none) :
    splitLoop p done s = (s :: done).reverse := by
  rw [splitLoop]
  split
  · rfl
  · rename_i hp
    split
    · rfl
    · rename_i hcut
      rw [h.resolve_left hp] at hcut
      cases hcut

theorem splitLoop_of_some {done : List (List Char)} (hp : p ≠ []) {before after : List Char}
    (h : cut? p s = some (before, after)) :
    splitLoop p done s = splitLoop p (before :: done) after := by
  rw [splitLoop, dif_neg hp]
  split
  · rename_i hcut
    rw [h] at hcut
    cases hcut
  · rename_i hcut
    rw [h] at hcut
    cases hcut
    rfl

theorem splitLoop_eq (hp : p ≠ []) (done : List (List Char)) (s : List Char) :
    splitLoop p done s = done.reverse ++ splitOn p s := by
  unfold splitOn
  induction s using cut_induction hp generalizing done with
  | none s h =>
    rw [splitLoop_of_none (Or.inr h), splitLoop_of_none (Or.inr h), List.reverse_cons]
    rfl
  | some s before after h ih =>
    rw [splitLoop_of_some hp h, splitLoop_of_some hp h, ih, ih [before], List.reverse_cons,
      List.append_assoc]
    rfl

theorem splitOn_of_none (h : cut? p s = none) : splitOn p s = [s] :=
  splitLoop_of_none (Or.inr h)

theorem splitOn_of_some (hp : p ≠ []) {before after : List Char}
    (h : cut? p s = some (before, after)) : splitOn p s = before :: splitOn p after :=
  (splitLoop_of_some hp h).trans (splitLoop_eq hp [before] after)

/-- The separator stands before each piece but the first. -/
theorem intercalate_cons (r part : List Char) (parts : List (List Char)) :
    r.intercalate (part :: parts) = part ++ parts.flatMap (r ++ ·) := by
  induction parts generalizing part with
  | nil => rw [List.intercalate_singleton, List.flatMap_nil, List.append_nil]
  | cons next parts ih =>
    rw [List.intercalate_cons_cons, ih, List.flatMap_cons]
    simp only [List.append_assoc]

theorem intercalate_characters (s : List Char) : [].intercalate (s.map fun c => [c]) = s := by
  cases s with
  | nil => rfl
  | cons c s =>
    have htail : (s.map fun c => [c]).flatMap ([] ++ ·) = s := by
      rw [List.flatMap_map]
      exact List.flatMap_singleton' s
    rw [List.map_cons, intercalate_cons, htail]
    rfl

theorem splitOn_ne_nil (hp : p ≠ []) (s : List Char) : splitOn p s ≠ [] := by
  cases h : cut? p s with
  | none =>
    rw [splitOn_of_none h]
    nofun
  | some cut =>
    rw [splitOn_of_some hp h]
    nofun

theorem intercalate_splitOn (hp : p ≠ []) (s : List Char) : p.intercalate (splitOn p s) = s := by
  induction s using cut_induction hp with
  | none s h =>
    rw [splitOn_of_none h, List.intercalate_singleton]
  | some s before after h ih =>
    rw [splitOn_of_some hp h, List.intercalate_cons_of_ne_nil (splitOn_ne_nil hp after), ih]
    exact cut?_append h

/-- There is more than one piece if and only if there is an occurrence. -/
theorem one_lt_length_splitOn (hp : p ≠ []) (s : List Char) :
    1 < (splitOn p s).length ↔ (cut? p s).isSome = true := by
  cases h : cut? p s with
  | none =>
    rw [splitOn_of_none h]
    exact ⟨fun hlt => absurd hlt (Nat.lt_irrefl 1), nofun⟩
  | some cut =>
    have := List.length_pos_iff.2 (splitOn_ne_nil hp cut.2)
    rw [splitOn_of_some hp h, List.length_cons]
    exact ⟨fun _ => rfl, fun _ => by omega⟩

/-- Pieces have an occurrence between them. -/
theorem length_splitOn_le (hp : p ≠ []) (s : List Char) :
    (splitOn p s).length ≤ s.length + 1 := by
  induction s using cut_induction hp with
  | none s h =>
    rw [splitOn_of_none h]
    exact Nat.le_add_left 1 _
  | some s before after h ih =>
    have := length_after_lt hp h
    rw [splitOn_of_some hp h, List.length_cons]
    omega

end Workflow.Text
