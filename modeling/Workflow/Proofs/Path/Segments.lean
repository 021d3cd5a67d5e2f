import Mathlib.Data.List.TakeDrop
import Mathlib.Data.List.TakeWhile
import Mathlib.Tactic.Common
import Workflow.Path
import Workflow.Proofs.Text.Pieces

/-! How paths are split into segments: at dots that stand outside of brackets, and at brackets, which
end with the first `]` behind them. -/
namespace Workflow.Path

open Text

/-- The end of a text, or where the next hop begins. -/
def IsBreak (s : List Char) : Prop :=
  ∀ c ∈ s.head?, c = '.' ∨ c = '['

theorem segment_of_ne_nil {s : List Char} (h : s ≠ []) (rest : List (List Char)) :
    segment s rest = s :: rest := by
  unfold segment
  rw [if_neg (by simpa using h)]

theorem segment_append (s : List Char) (l r : List (List Char)) :
    segment s l ++ r = segment s (l ++ r) := by
  unfold segment
  split
  · rfl
  · rfl

theorem mem_segment {s t : List Char} {rest : List (List Char)} (h : t ∈ segment s rest) :
    t = s ∨ t ∈ rest := by
  unfold segment at h
  split at h
  · exact Or.inr h
  · exact List.mem_cons.1 h

theorem segmentsFrom_of_break {s : List Char} (h : IsBreak s) (current : List Char) :
    segmentsFrom current s = segment current.reverse (segmentsFrom [] s) := by
  cases s with
  | nil => simp only [segmentsFrom, segment, List.reverse_nil, List.isEmpty_nil, if_true]
  | cons c rest =>
    rw [segmentsFrom, segmentsFrom]
    rcases h c rfl with rfl | rfl
    · rfl
    · rfl

theorem segmentsFrom_name {s : List Char} (h : ∀ c ∈ s, c ≠ '.' ∧ c ≠ '[')
    (current rest : List Char) :
    segmentsFrom current (s ++ rest) = segmentsFrom (s.reverse ++ current) rest := by
  induction s generalizing current with
  | nil => rfl
  | cons c s ih =>
    obtain ⟨⟨hd, hb⟩, hs⟩ := List.forall_mem_cons.1 h
    rw [List.cons_append, segmentsFrom, if_neg hb, if_neg hd, ih hs, List.reverse_cons,
      List.append_assoc]
    rfl

theorem takeWhile_bracket {s : List Char} (h : ']' ∉ s) : s.takeWhile (· != ']') = s := by
  rw [List.takeWhile_eq_self_iff]
  intro c hc
  exact bne_iff_ne.2 (ne_of_mem_of_not_mem hc h)

/-- A bracket ends with its first `]`, quoted or not. -/
theorem bracket_append_cons {s : List Char} (h : ']' ∉ s) (rest : List Char) :
    bracket (s ++ ']' :: rest) = ((bracket s).1, rest) := by
  have hs : ∀ c ∈ s, (c != ']') = true := fun c hc => bne_iff_ne.2 (ne_of_mem_of_not_mem hc h)
  have htake : (s ++ ']' :: rest).takeWhile (· != ']') = s := by
    rw [List.takeWhile_append_of_pos hs, List.takeWhile_cons_of_neg (by decide), List.append_nil]
  have hdrop : (s ++ ']' :: rest).dropWhile (· != ']') = ']' :: rest := by
    rw [List.dropWhile_append_of_pos hs, List.dropWhile_cons_of_neg (by decide)]
  unfold bracket
  rw [htake, hdrop, takeWhile_bracket h]
  dsimp only [List.drop_succ_cons, List.drop_zero]
  split
  · rfl
  · rfl
  · rfl

theorem bracket_quote {s : List Char} (h : ']' ∉ s) :
    (bracket ('\x22' :: s)).1 = s.filter (· != '\x22') := by
  unfold bracket
  rw [List.takeWhile_cons_of_pos (by decide), takeWhile_bracket h]
  rfl

theorem bracket_plain {s : List Char} (h : ']' ∉ s)
    (hq : ∀ c ∈ s.head?, c ≠ '\x22' ∧ c ≠ '\'') : (bracket s).1 = trim s := by
  unfold bracket
  rw [takeWhile_bracket h]
  dsimp only
  split
  · exact absurd rfl (hq _ rfl).1
  · exact absurd rfl (hq _ rfl).2
  · rfl

theorem filter_quote {s : List Char} (h : '\x22' ∉ s) : s.filter (· != '\x22') = s := by
  rw [List.filter_eq_self]
  intro c hc
  exact bne_iff_ne.2 (ne_of_mem_of_not_mem hc h)

theorem bracket_quoted {s : List Char} (hq : '\x22' ∉ s) (hb : ']' ∉ s) (rest : List Char) :
    bracket ('\x22' :: (s ++ '\x22' :: ']' :: rest)) = (s, rest) := by
  have hend : ']' ∉ s ++ ['\x22'] := by
    rw [List.mem_append, not_or]
    exact ⟨hb, by decide⟩
  have hsplit : '\x22' :: (s ++ '\x22' :: ']' :: rest) = '\x22' :: (s ++ ['\x22']) ++ ']' :: rest := by
    simp only [List.cons_append, List.append_assoc, List.nil_append]
  have hkey : (s ++ ['\x22']).filter (· != '\x22') = s := by
    rw [List.filter_append, filter_quote hq]
    exact List.append_nil s
  rw [hsplit, bracket_append_cons (List.not_mem_cons_of_ne_of_not_mem (by decide) hend),
    bracket_quote hend, hkey]

/-- Every opening bracket has a closing one behind it. -/
def Closed (s : List Char) : Prop :=
  ∀ rest, '[' :: rest <:+ s → ']' ∈ rest

theorem closed_nil : Closed [] := fun _ h => absurd (List.suffix_nil.1 h) (List.cons_ne_nil _ _)

theorem closed_cons {c : Char} {s : List Char} :
    Closed (c :: s) ↔ (c = '[' → ']' ∈ s) ∧ Closed s := by
  constructor
  · intro h
    refine ⟨?_, fun rest hr => h rest (hr.trans (List.suffix_cons c s))⟩
    rintro rfl
    exact h s List.suffix_rfl
  · rintro ⟨hc, hs⟩ rest hr
    rcases List.suffix_cons_iff.1 hr with he | hr
    · obtain ⟨rfl, rfl⟩ := List.cons.inj he
      exact hc rfl
    · exact hs rest hr

instance decidableClosed : DecidablePred Closed
  | [] => isTrue closed_nil
  | _ :: s =>
    have := decidableClosed s
    decidable_of_iff _ closed_cons.symm

theorem Closed.of_suffix {s t : List Char} (h : Closed t) (hs : s <:+ t) : Closed s :=
  fun rest hr => h rest (hr.trans hs)

/-- The characters of a segment that has begun are in front of the dot as they are without it. -/
theorem segmentsFrom_append_dot {p : List Char} (hp : Closed p) (current q : List Char) :
    segmentsFrom current (p ++ '.' :: q) = segmentsFrom current p ++ segmentsFrom [] q := by
  fun_induction segmentsFrom current p with
  | case1 current =>
    rw [List.nil_append, segmentsFrom, if_neg (by decide), if_pos rfl, segment_append,
      List.nil_append]
  | case2 current rest ih =>
    obtain ⟨hclose, hrest⟩ := closed_cons.1 hp
    obtain ⟨inside, after, rfl, hinside⟩ := List.eq_append_cons_of_mem (hclose rfl)
    have hb := bracket_append_cons hinside after
    have hafter : Closed after :=
      hrest.of_suffix ((List.suffix_cons _ _).trans (List.suffix_append _ _))
    rw [hb] at ih
    rw [List.cons_append, List.append_assoc, List.cons_append, segmentsFrom, if_pos rfl,
      bracket_append_cons hinside, hb, segment_append, segment_append, ih hafter]
  | case3 current rest hb ih =>
    rw [List.cons_append, segmentsFrom, if_neg hb, if_pos rfl, segment_append,
      ih (closed_cons.1 hp).2]
  | case4 current c rest hb hd ih =>
    rw [List.cons_append, segmentsFrom, if_neg hb, if_neg hd, ih (closed_cons.1 hp).2]

/-- A dot behind a path whose brackets are closed begins a path of its own. -/
theorem segments_append_dot {p : List Char} (hp : Closed p) (q : List Char) :
    segments (p ++ '.' :: q) = segments p ++ segments q := by
  unfold segments
  rw [segmentsFrom_append_dot hp, List.map_append]

theorem not_mem_bracket (s : List Char) : ']' ∉ (bracket s).1 := by
  have htake : ']' ∉ s.takeWhile (· != ']') := fun h => absurd (List.mem_takeWhile_imp h) (by decide)
  intro h
  refine htake ?_
  unfold bracket at h
  dsimp only at h
  split at h
  · rename_i inner he
    rw [he]
    exact List.mem_cons_of_mem _ (List.mem_filter.1 h).1
  · rename_i inner he
    rw [he]
    exact List.mem_cons_of_mem _ (List.mem_filter.1 h).1
  · exact (trim_sublist _).subset h

/-- No bracket has `]` in it, so a segment that has is a run between dots and brackets. -/
theorem not_mem_of_mem_segmentsFrom {current s t : List Char}
    (hc : ∀ c ∈ current, c ≠ '.' ∧ c ≠ '[') (ht : t ∈ segmentsFrom current s) (hb : ']' ∈ t) :
    ∀ c ∈ t, c ≠ '.' ∧ c ≠ '[' := by
  have hrun : ∀ {current : List Char}, (∀ c ∈ current, c ≠ '.' ∧ c ≠ '[') →
      ∀ c ∈ current.reverse, c ≠ '.' ∧ c ≠ '[' := fun h c hm => h c (List.mem_reverse.1 hm)
  fun_induction segmentsFrom current s with
  | case1 current =>
    rcases mem_segment ht with rfl | ht
    · exact hrun hc
    · exact absurd ht List.not_mem_nil
  | case2 current rest ih =>
    rcases mem_segment ht with rfl | ht
    · exact hrun hc
    · rcases mem_segment ht with rfl | ht
      · exact absurd hb (not_mem_bracket rest)
      · exact ih (List.forall_mem_nil _) ht
  | case3 current rest _ ih =>
    rcases mem_segment ht with rfl | ht
    · exact hrun hc
    · exact ih (List.forall_mem_nil _) ht
  | case4 current c rest hopen hdot ih => exact ih (List.forall_mem_cons.2 ⟨⟨hdot, hopen⟩, hc⟩) ht

/-- A segment that has begun goes on with what follows. -/
theorem exists_segmentsFrom_eq_cons {current : List Char} (h : current ≠ []) (s : List Char) :
    ∃ t rest, segmentsFrom current s = (current.reverse ++ t) :: rest := by
  have hne : ∀ {current : List Char}, current ≠ [] → ∀ rest,
      ∃ t rest', segment current.reverse rest = (current.reverse ++ t) :: rest' := by
    intro current h rest
    rw [segment_of_ne_nil (by simpa using h)]
    exact ⟨[], rest, by rw [List.append_nil]⟩
  fun_induction segmentsFrom current s with
  | case1 current => exact hne h _
  | case2 current rest => exact hne h _
  | case3 current rest => exact hne h _
  | case4 current c rest _ _ ih =>
    obtain ⟨t, more, ht⟩ := ih (List.cons_ne_nil _ _)
    exact ⟨c :: t, more, by rw [ht, List.reverse_cons, List.append_assoc]; rfl⟩

end Workflow.Path
