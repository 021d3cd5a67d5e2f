import Mathlib.Data.List.Basic
import Mathlib.Data.List.TakeDrop
import Mathlib.Data.List.TakeWhile
import Mathlib.Tactic.Common
import Workflow.Text.Blank
import Workflow.Text.Search

/-! What texts are cut into: the parts on both sides of a character, the pieces between all of its
occurrences, and words with white space between them. Each is given by how it is put together. -/
namespace Workflow.Text

theorem head_dropWhile {α : Type} {p : α → Bool} {l : List α} :
    ∀ a ∈ (l.dropWhile p).head?, p a = false := by
  intro a ha
  have hnot := List.head?_dropWhile_not p l
  rwa [Option.mem_def.1 ha] at hnot

theorem cutChar?_append {q : Char} {s : List Char} (h : ∀ c ∈ s, c ≠ q) (rest : List Char) :
    cutChar? q (s ++ q :: rest) = some (s, rest) := by
  have hs : ∀ c ∈ s, (c != q) = true := by simpa using h
  unfold cutChar?
  rw [List.span_eq_takeWhile_dropWhile, List.takeWhile_append_of_pos hs,
    List.dropWhile_append_of_pos hs, List.takeWhile_cons_of_neg (by simp),
    List.dropWhile_cons_of_neg (by simp), List.append_nil]

theorem cutChar?_eq_none {q : Char} {s : List Char} (h : q ∉ s) : cutChar? q s = none := by
  have hdrop : s.dropWhile (· != q) = [] := by
    rw [List.dropWhile_eq_nil_iff]
    intro c hc
    rw [bne_iff_ne]
    rintro rfl
    exact h hc
  unfold cutChar?
  rw [List.span_eq_takeWhile_dropWhile, hdrop]

/-- A text is cut at the first occurrence of the character. -/
theorem cutChar?_eq_some_iff {q : Char} {s before after : List Char} :
    cutChar? q s = some (before, after) ↔ s = before ++ q :: after ∧ q ∉ before := by
  constructor
  · intro h
    by_cases hq : q ∈ s
    · obtain ⟨front, back, rfl, hfront⟩ := List.eq_append_cons_of_mem hq
      rw [cutChar?_append fun c hc => ne_of_mem_of_not_mem hc hfront] at h
      obtain ⟨rfl, rfl⟩ := Prod.mk.inj (Option.some.inj h)
      exact ⟨rfl, hfront⟩
    · rw [cutChar?_eq_none hq] at h
      exact absurd h (by simp)
  · rintro ⟨rfl, hq⟩
    exact cutChar?_append (fun c hc => ne_of_mem_of_not_mem hc hq) after

/-- Texts cut at the first occurrence of a character have the same parts. -/
theorem append_cons_inj {q : Char} {s t rest rest' : List Char} (hs : q ∉ s) (ht : q ∉ t)
    (h : s ++ q :: rest = t ++ q :: rest') : s = t ∧ rest = rest' := by
  have hcut := cutChar?_eq_some_iff.2 ⟨h, ht⟩
  rw [cutChar?_eq_some_iff.2 ⟨rfl, hs⟩] at hcut
  exact Prod.mk.inj (Option.some.inj hcut)

theorem splitWhen_cons {α : Type} (p : α → Bool) (a : α) (l : List α) :
    splitWhen p (a :: l) =
      if p a then [] :: splitWhen p l
      else match splitWhen p l with
        | [] => [[a]]
        | piece :: rest => (a :: piece) :: rest :=
  rfl

theorem splitWhen_eq_splitOnP {α : Type} (p : α → Bool) (l : List α) :
    splitWhen p l = l.splitOnP p := by
  induction l with
  | nil => exact List.splitOnP_nil.symm
  | cons a l ih =>
    rw [splitWhen_cons, List.splitOnP_cons_eq_if_modifyHead, ih]
    obtain ⟨piece, rest, h⟩ := List.exists_cons_of_ne_nil (List.splitOnP_ne_nil p l)
    rw [h]
    rfl

theorem not_of_mem_splitWhen {α : Type} {p : α → Bool} {l piece : List α}
    (h : piece ∈ splitWhen p l) : ∀ a ∈ piece, p a = false := by
  induction l generalizing piece with
  | nil =>
    obtain rfl := List.mem_singleton.1 h
    exact List.forall_mem_nil _
  | cons a l ih =>
    rw [splitWhen_cons] at h
    by_cases ha : p a = true
    · rw [if_pos ha] at h
      rcases List.mem_cons.1 h with rfl | h
      · exact List.forall_mem_nil _
      · exact ih h
    · rw [if_neg ha] at h
      have hfalse : p a = false := Bool.eq_false_iff.2 ha
      cases hl : splitWhen p l with
      | nil =>
        rw [hl] at h
        obtain rfl := List.mem_singleton.1 h
        simpa using hfalse
      | cons first rest =>
        rw [hl] at h ih
        rcases List.mem_cons.1 h with rfl | h
        · exact List.forall_mem_cons.2 ⟨hfalse, ih List.mem_cons_self⟩
        · exact ih (List.mem_cons_of_mem _ h)

/-- The pieces are what was put together with the separator between them. -/
theorem splitWhen_eq_iff {q : Char} {s : List Char} {pieces : List (List Char)} :
    splitWhen (· = q) s = pieces ↔
      s = [q].intercalate pieces ∧ pieces ≠ [] ∧ ∀ piece ∈ pieces, q ∉ piece := by
  have hsplit : splitWhen (· = q) s = s.splitOn q := by
    rw [splitWhen_eq_splitOnP]
    rfl
  rw [hsplit]
  constructor
  · rintro rfl
    refine ⟨(List.intercalate_splitOn q).symm, List.splitOnP_ne_nil _ _, fun piece hp hq => ?_⟩
    rw [← hsplit] at hp
    exact absurd (not_of_mem_splitWhen hp q hq) (by simp)
  · rintro ⟨rfl, hne, hfree⟩
    exact List.splitOn_intercalate q hfree hne

theorem splitWhen_of_not_mem {q : Char} {s : List Char} (h : q ∉ s) :
    splitWhen (· = q) s = [s] := by
  have hjoined : s = [q].intercalate [s] := by simp [List.intercalate]
  exact splitWhen_eq_iff.2 ⟨hjoined, List.cons_ne_nil _ _, by simpa using h⟩

theorem splitWhen_append_cons {q : Char} (s rest : List Char) :
    splitWhen (· = q) (s ++ q :: rest) = splitWhen (· = q) s ++ splitWhen (· = q) rest := by
  simp only [splitWhen_eq_splitOnP]
  exact List.splitOnP_append_cons s rest (decide_eq_true rfl)

/-- Pieces that have the separator in them are cut further. -/
theorem splitWhen_intercalate {q : Char} {parts : List (List Char)} (h : parts ≠ []) :
    splitWhen (· = q) ([q].intercalate parts) = parts.flatMap (splitWhen (· = q)) := by
  induction parts with
  | nil => exact absurd rfl h
  | cons a rest ih =>
    cases rest with
    | nil => simp [List.intercalate]
    | cons b rest =>
      have hcons : [q].intercalate (a :: b :: rest) = a ++ q :: [q].intercalate (b :: rest) := by
        simp [List.intercalate]
      rw [hcons, splitWhen_append_cons, ih (List.cons_ne_nil _ _)]
      rfl

theorem mem_intercalate_iff {q c : Char} {pieces : List (List Char)} :
    c ∈ [q].intercalate pieces ↔ (∃ piece ∈ pieces, c ∈ piece) ∨ (c = q ∧ 2 ≤ pieces.length) := by
  induction pieces with
  | nil => simp [List.intercalate]
  | cons a rest ih =>
    cases rest with
    | nil => simp [List.intercalate]
    | cons b rest =>
      have hcons : [q].intercalate (a :: b :: rest) = a ++ q :: [q].intercalate (b :: rest) := by
        simp [List.intercalate]
      rw [hcons, List.mem_append, List.mem_cons, ih,
        List.exists_mem_cons_iff (c ∈ ·) a]
      constructor
      · rintro (ha | hq | hrest | hq)
        · exact Or.inl (Or.inl ha)
        · exact Or.inr ⟨hq, by simp⟩
        · exact Or.inl (Or.inr hrest)
        · exact Or.inr ⟨hq.1, by simp⟩
      · rintro ((ha | hrest) | hq)
        · exact Or.inl ha
        · exact Or.inr (Or.inr (Or.inl hrest))
        · exact Or.inr (Or.inl hq.1)

/-- Words with white space between them, and possibly around them. -/
inductive Spaced : List Char → List (List Char) → Prop
  | nil : Spaced [] []
  | blank {c : Char} {s : List Char} {ws : List (List Char)} :
    isBlank c = true → Spaced s ws → Spaced (c :: s) ws
  | word {w rest : List Char} {ws : List (List Char)} :
    w ≠ [] → (∀ c ∈ w, isBlank c = false) → (∀ c ∈ rest.head?, isBlank c = true) →
      Spaced rest ws → Spaced (w ++ rest) (w :: ws)

theorem Spaced.mem {s : List Char} {ws : List (List Char)} (h : Spaced s ws) {w : List Char}
    (hw : w ∈ ws) {c : Char} (hc : c ∈ w) : c ∈ s := by
  induction h with
  | nil => exact absurd hw List.not_mem_nil
  | blank _ _ ih => exact List.mem_cons_of_mem _ (ih hw)
  | word _ _ _ _ ih =>
    rcases List.mem_cons.1 hw with rfl | hw
    · exact List.mem_append_left _ hc
    · exact List.mem_append_right _ (ih hw)

/-- What is not white space is part of a word. -/
theorem Spaced.exists_mem {s : List Char} {ws : List (List Char)} (h : Spaced s ws) {c : Char}
    (hc : c ∈ s) (hb : isBlank c = false) : ∃ w ∈ ws, c ∈ w := by
  induction h with
  | nil => exact absurd hc List.not_mem_nil
  | blank hblank _ ih =>
    rcases List.mem_cons.1 hc with rfl | hc
    · rw [hblank] at hb
      exact absurd hb (by simp)
    · exact ih hc
  | word _ _ _ _ ih =>
    rw [List.exists_mem_cons_iff]
    exact (List.mem_append.1 hc).imp_right ih

theorem Spaced.after_blanks {lead s : List Char} {ws : List (List Char)}
    (hl : ∀ c ∈ lead, isBlank c = true) (h : Spaced s ws) : Spaced (lead ++ s) ws := by
  induction lead with
  | nil => exact h
  | cons c lead ih =>
    obtain ⟨hc, hlead⟩ := List.forall_mem_cons.1 hl
    exact .blank hc (ih hlead)

theorem words_cons_blank {c : Char} (h : isBlank c = true) (s : List Char) :
    words (c :: s) = words s := by
  unfold words
  rw [splitWhen_cons, if_pos h]
  rfl

theorem words_append {w rest : List Char} (hne : w ≠ []) (hw : ∀ c ∈ w, isBlank c = false)
    (hrest : ∀ c ∈ rest.head?, isBlank c = true) : words (w ++ rest) = w :: words rest := by
  unfold words
  simp only [splitWhen_eq_splitOnP]
  cases rest with
  | nil =>
    rw [List.append_nil, List.splitOnP_eq_singleton hw, List.splitOnP_nil]
    simp [hne]
  | cons c rest =>
    have hc : isBlank c = true := hrest c rfl
    rw [List.splitOnP_append_cons w rest hc, List.splitOnP_eq_singleton hw,
      List.splitOnP_cons_eq_if_modifyHead, if_pos hc]
    simp [hne]

/-- The words of a text are what it is put together from. -/
theorem words_eq_iff {s : List Char} {ws : List (List Char)} : words s = ws ↔ Spaced s ws := by
  constructor
  · rintro rfl
    induction hn : s.length using Nat.strongRecOn generalizing s with
    | ind n ih =>
      subst hn
      cases s with
      | nil => exact .nil
      | cons c rest =>
        by_cases hc : isBlank c = true
        · rw [words_cons_blank hc]
          exact .blank hc (ih _ (Nat.lt_succ_self _) rfl)
        · -- the first word is the run of characters up to the next white space
          have hsplit : (c :: rest).takeWhile (!isBlank ·) ++ (c :: rest).dropWhile (!isBlank ·) =
              c :: rest := List.takeWhile_append_dropWhile
          have hne : (c :: rest).takeWhile (!isBlank ·) ≠ [] := by simp [hc]
          have hw : ∀ d ∈ (c :: rest).takeWhile (!isBlank ·), isBlank d = false := fun d hd => by
            simpa using List.mem_takeWhile_imp hd
          have hhead : ∀ d ∈ ((c :: rest).dropWhile (!isBlank ·)).head?, isBlank d = true :=
            fun d hd => by simpa using head_dropWhile d hd
          have hshort : ((c :: rest).dropWhile (!isBlank ·)).length < (c :: rest).length := by
            have hlen := congrArg List.length hsplit
            have hpos := List.length_pos_iff.2 hne
            rw [List.length_append] at hlen
            omega
          rw [← hsplit, words_append hne hw hhead]
          exact .word hne hw hhead (ih _ hshort rfl)
  · intro h
    induction h with
    | nil => rfl
    | blank hc _ ih => rw [words_cons_blank hc, ih]
    | word hne hw hrest _ ih => rw [words_append hne hw hrest, ih]

theorem Spaced.before_blanks {s : List Char} {ws : List (List Char)} (h : Spaced s ws)
    {trail : List Char} (ht : ∀ c ∈ trail, isBlank c = true) : Spaced (s ++ trail) ws := by
  induction h with
  | nil =>
    have hnil := Spaced.nil.after_blanks ht
    rwa [List.append_nil] at hnil
  | blank hc _ ih => exact .blank hc ih
  | @word w rest ws hne hw hrest _ ih =>
    rw [List.append_assoc]
    refine .word hne hw ?_ ih
    intro c hc
    cases rest with
    | nil => exact ht c (List.mem_of_mem_head? hc)
    | cons d rest => exact hrest c hc

/-- A text that is not empty and has no white space in it. -/
def IsWord (s : List Char) : Prop :=
  s ≠ [] ∧ ∀ c ∈ s, isBlank c = false

theorem IsWord.append {s t : List Char} (hs : IsWord s) (ht : IsWord t) : IsWord (s ++ t) := by
  constructor
  · exact List.append_ne_nil_of_left_ne_nil hs.1 t
  · intro c hc
    rcases List.mem_append.1 hc with hc | hc
    · exact hs.2 c hc
    · exact ht.2 c hc

theorem IsWord.cons {c : Char} {s : List Char} (hc : isBlank c = false) (hs : IsWord s) :
    IsWord (c :: s) :=
  ⟨List.cons_ne_nil _ _, List.forall_mem_cons.2 ⟨hc, hs.2⟩⟩

theorem spaced_intercalate {ws : List (List Char)} (h : ∀ w ∈ ws, IsWord w) :
    Spaced ([' '].intercalate ws) ws := by
  induction ws with
  | nil => exact .nil
  | cons w rest ih =>
    obtain ⟨⟨hne, hw⟩, hrest⟩ := List.forall_mem_cons.1 h
    have hspaced := ih hrest
    cases rest with
    | nil =>
      have hend : ∀ c ∈ ([] : List Char).head?, isBlank c = true := by simp
      have hone := Spaced.word hne hw hend .nil
      simpa [List.intercalate] using hone
    | cons v rest =>
      have hcons : [' '].intercalate (w :: v :: rest) = w ++ ' ' :: [' '].intercalate (v :: rest) := by
        simp [List.intercalate]
      rw [hcons]
      apply Spaced.word hne hw
      · intro c hc
        obtain rfl : ' ' = c := Option.some.inj hc
        rfl
      · exact .blank rfl hspaced

theorem words_append_blank (s rest : List Char) :
    words (s ++ ' ' :: rest) = words s ++ words rest := by
  unfold words
  simp only [splitWhen_eq_splitOnP]
  rw [List.splitOnP_append_cons s rest rfl, List.filter_append]

/-- What a text begins with, the first word begins with. -/
theorem Spaced.head {s : List Char} {ws : List (List Char)} (h : Spaced s ws) {c : Char}
    (hs : s.head? = some c) (hc : isBlank c = false) :
    ∃ w rest, ws = w :: rest ∧ w.head? = some c := by
  cases h with
  | nil => exact absurd hs (by simp)
  | blank hblank _ =>
    obtain rfl := Option.some.inj hs
    rw [hblank] at hc
    exact absurd hc (by simp)
  | @word w rest ws hne _ _ _ =>
    rw [List.head?_append_of_ne_nil w hne] at hs
    exact ⟨w, ws, rfl, hs⟩

theorem trimEnd_sublist (s : List Char) : (trimEnd s).Sublist s := by
  have h := (List.dropWhile_sublist isBlank (l := s.reverse)).reverse
  rwa [List.reverse_reverse] at h

theorem trim_sublist (s : List Char) : (trim s).Sublist s :=
  (trimEnd_sublist _).trans (List.dropWhile_sublist _)

/-- White space around a text is part of no word. -/
theorem words_trim (s : List Char) : words (trim s) = words s := by
  have hstart := List.takeWhile_append_dropWhile (p := isBlank) (l := s)
  have hend := List.takeWhile_append_dropWhile (p := isBlank) (l := (trimStart s).reverse)
  have hblank {l : List Char} : ∀ c ∈ l.takeWhile isBlank, isBlank c = true := fun c hc =>
    List.mem_takeWhile_imp hc
  have hsplit : trimStart s = trim s ++ ((trimStart s).reverse.takeWhile isBlank).reverse := by
    rw [trim, trimEnd, ← List.reverse_append, hend, List.reverse_reverse]
  have hwhole : s.takeWhile isBlank ++
      (trim s ++ ((trimStart s).reverse.takeWhile isBlank).reverse) = s := by
    rw [← hsplit]
    exact hstart
  have hspaced : Spaced (s.takeWhile isBlank ++
      (trim s ++ ((trimStart s).reverse.takeWhile isBlank).reverse)) (words (trim s)) := by
    apply Spaced.after_blanks hblank
    apply (words_eq_iff.1 (Eq.refl (words (trim s)))).before_blanks
    intro c hc
    exact hblank c (List.mem_reverse.1 hc)
  rw [hwhole] at hspaced
  exact (words_eq_iff.2 hspaced).symm

end Workflow.Text
