import Workflow.Proofs.Text.Decimal
import Workflow.Proofs.Text.Pieces

/-! Sentences: words with a blank between them, and enumerations of pieces with a comma and a blank
between them. Both can be taken apart again if no word has a blank, and no piece a comma, in it. -/
namespace Workflow.Text

/-- The words of a text. -/
def wordsOf (s : String) : List String :=
  (words s.toList).map String.ofList

theorem wordsOf_intercalate {ws : List String} (h : ∀ w ∈ ws, IsWord w.toList) :
    wordsOf (" ".intercalate ws) = ws := by
  have hwords : words (" ".intercalate ws).toList = ws.map String.toList := by
    rw [String.toList_intercalate, words_eq_iff]
    apply spaced_intercalate
    simpa using h
  unfold wordsOf
  rw [hwords, List.map_map]
  simp

theorem wordsOf_singleton {w : String} (h : IsWord w.toList) : wordsOf w = [w] := by
  have hsingle : ∀ v ∈ [w], IsWord v.toList := by simpa using h
  simpa using wordsOf_intercalate hsingle

theorem wordsOf_append_blank (s rest : String) :
    wordsOf (s ++ " " ++ rest) = wordsOf s ++ wordsOf rest := by
  unfold wordsOf
  rw [← List.map_append, ← words_append_blank]
  simp

/-- The first word of a text that begins with it. -/
theorem exists_wordsOf_cons {s : String} {c : Char} (hs : s.toList.head? = some c)
    (hc : isBlank c = false) : ∃ w ws, wordsOf s = w :: ws ∧ w.toList.head? = some c := by
  obtain ⟨w, rest, hwords, hw⟩ := (words_eq_iff.1 (Eq.refl (words s.toList))).head hs hc
  refine ⟨String.ofList w, rest.map String.ofList, ?_, by simpa using hw⟩
  unfold wordsOf
  rw [hwords, List.map_cons]

theorem toList_words_cons (w next : String) (rest : List String) :
    (" ".intercalate (w :: next :: rest)).toList =
      w.toList ++ ' ' :: (" ".intercalate (next :: rest)).toList := by
  rw [String.intercalate_cons_cons, String.toList_append, String.toList_append, List.append_assoc]
  rfl

/-- A word without the marks between words, between pieces and within a time of day. -/
def IsPlain (w : String) : Prop :=
  w.toList ≠ [] ∧ ∀ c ∈ w.toList, isBlank c = false ∧ c ≠ ',' ∧ c ≠ ':'

theorem isPlain_iff {w : String} : w.toList ≠ [] ∧
    (w.toList.all fun c => !isBlank c && c ≠ ',' && c ≠ ':') = true ↔ IsPlain w := by
  simp [IsPlain, and_assoc]

instance : DecidablePred IsPlain :=
  fun _ => decidable_of_iff _ isPlain_iff

theorem IsPlain.isWord {w : String} (h : IsPlain w) : IsWord w.toList :=
  ⟨h.1, fun c hc => (h.2 c hc).1⟩

theorem isPlain_toString (n : Nat) : IsPlain (toString n) := by
  refine ⟨toString_ne_nil n, fun c hc => ?_⟩
  have hdigit := isDigit_of_mem_toString hc
  refine ⟨not_isBlank_of_isDigit hdigit, ?_, ?_⟩
  · rintro rfl
    exact absurd hdigit (by decide)
  · rintro rfl
    exact absurd hdigit (by decide)

theorem not_mem_words {ws : List String} (h : ∀ w ∈ ws, IsPlain w) {c : Char}
    (hc : c ∈ [',', ':']) : c ∉ (" ".intercalate ws).toList := by
  intro hmem
  have hplain {w : String} (hw : w ∈ ws) : c ∉ w.toList := fun hcw => by
    obtain ⟨-, hcomma, hcolon⟩ := (h w hw).2 c hcw
    simp [hcomma, hcolon] at hc
  rw [String.toList_intercalate] at hmem
  rcases mem_intercalate_iff.1 hmem with ⟨s, hs, hcs⟩ | ⟨rfl, -⟩
  · obtain ⟨w, hw, rfl⟩ := List.mem_map.1 hs
    exact hplain hw hcs
  · exact absurd hc (by decide)

theorem toList_pieces_cons (piece : String) (rest : List String) :
    (", ".intercalate (piece :: rest)).toList =
      [','].intercalate (piece.toList :: rest.map fun p => ' ' :: p.toList) := by
  induction rest generalizing piece with
  | nil => simp [List.intercalate]
  | cons next rest ih =>
    have hcons : [','].intercalate (piece.toList :: (next :: rest).map fun p => ' ' :: p.toList) =
        piece.toList ++ ',' :: ' ' ::
          [','].intercalate (next.toList :: rest.map fun p => ' ' :: p.toList) := by
      cases rest <;> simp [List.intercalate]
    rw [hcons, String.intercalate_cons_cons, String.toList_append, String.toList_append, ih]
    simp

/-- An enumeration is cut at its commas. -/
theorem pieces_inj {ps qs : List String} (hps : ps ≠ []) (hqs : qs ≠ [])
    (hp : ∀ p ∈ ps, ',' ∉ p.toList) (hq : ∀ q ∈ qs, ',' ∉ q.toList)
    (h : ", ".intercalate ps = ", ".intercalate qs) : ps = qs := by
  obtain ⟨p, ps, rfl⟩ := List.exists_cons_of_ne_nil hps
  obtain ⟨q, qs, rfl⟩ := List.exists_cons_of_ne_nil hqs
  have hsplit {r : String} {rs : List String} (hr : ∀ s ∈ r :: rs, ',' ∉ s.toList) :
      splitWhen (· = ',') (", ".intercalate (r :: rs)).toList =
        r.toList :: rs.map fun s => ' ' :: s.toList := by
    -- the blanks behind the commas are left in front of all pieces but the first
    rw [splitWhen_eq_iff]
    refine ⟨toList_pieces_cons r rs, List.cons_ne_nil _ _, ?_⟩
    simpa using hr
  have hpieces := hsplit hp
  rw [h, hsplit hq] at hpieces
  obtain ⟨hfirst, hrest⟩ := List.cons.inj hpieces
  have hinj : Function.Injective fun s : String => ' ' :: s.toList := fun s t hst =>
    String.toList_inj.1 (List.cons.inj hst).2
  rw [String.toList_inj.1 hfirst, (List.map_injective_iff.2 hinj) hrest]

/-- The pieces of an enumeration with something in front of it and behind it. -/
def enclosed (front back : String) : List String → List String
  | [] => []
  | [piece] => [front ++ piece ++ back]
  | piece :: next :: rest => (front ++ piece) :: enclosed "" back (next :: rest)

/-- Only the first piece begins with the front, and only the last one ends with the back. -/
theorem enclosed_cons (front back piece : String) (rest : List String) :
    ∃ others, ∃ b ∈ ["", back], enclosed front back (piece :: rest) = (front ++ piece ++ b) :: others ∧
      others.length = rest.length ∧ ∀ p ∈ others, ∃ q ∈ rest, ∃ b ∈ ["", back], p = q ++ b := by
  induction rest generalizing front piece with
  | nil => exact ⟨[], back, by simp, rfl, rfl, by simp⟩
  | cons next rest ih =>
    obtain ⟨others, b, hb, hcons, hlength, hothers⟩ := ih "" next
    refine ⟨(next ++ b) :: others, "", by simp, ?_, by simp [hlength], ?_⟩
    · rw [enclosed, hcons]
      simp
    · rw [List.forall_mem_cons]
      constructor
      · exact ⟨next, List.mem_cons_self, b, hb, rfl⟩
      · intro p hp
        obtain ⟨q, hq, h⟩ := hothers p hp
        exact ⟨q, List.mem_cons_of_mem _ hq, h⟩

theorem intercalate_enclosed {pieces : List String} (h : pieces ≠ []) (front back : String) :
    ", ".intercalate (enclosed front back pieces) = front ++ ", ".intercalate pieces ++ back := by
  induction pieces generalizing front with
  | nil => exact absurd rfl h
  | cons piece rest ih =>
    cases rest with
    | nil => simp [enclosed]
    | cons next rest =>
      obtain ⟨others, b, -, hcons, -⟩ := enclosed_cons "" back next rest
      have hrest := ih (List.cons_ne_nil _ _) ""
      rw [enclosed, hcons, String.intercalate_cons_cons, ← hcons, hrest,
        String.intercalate_cons_cons]
      simp [String.append_assoc]

theorem length_enclosed (front back : String) (pieces : List String) :
    (enclosed front back pieces).length = pieces.length := by
  cases pieces with
  | nil => rfl
  | cons piece rest =>
    obtain ⟨others, b, -, hcons, hlength, -⟩ := enclosed_cons front back piece rest
    rw [hcons, List.length_cons, hlength, List.length_cons]

theorem not_mem_enclosed {front back : String} {pieces : List String} {c : Char}
    (hfront : c ∉ front.toList) (hback : c ∉ back.toList) (h : ∀ p ∈ pieces, c ∉ p.toList) :
    ∀ p ∈ enclosed front back pieces, c ∉ p.toList := by
  cases pieces with
  | nil => exact List.forall_mem_nil _
  | cons piece rest =>
    obtain ⟨others, b, hb, hcons, -, hothers⟩ := enclosed_cons front back piece rest
    obtain ⟨hpiece, hrest⟩ := List.forall_mem_cons.1 h
    have hend {b : String} (hb : b ∈ ["", back]) : c ∉ b.toList := by
      rcases List.mem_pair.1 hb with rfl | rfl
      · exact List.not_mem_nil
      · exact hback
    rw [hcons, List.forall_mem_cons]
    constructor
    · simp [hfront, hpiece, hend hb]
    · intro p hp
      obtain ⟨q, hq, b, hb, rfl⟩ := hothers p hp
      simp [hrest q hq, hend hb]

/-- What an enumeration is enclosed in does not change what is enumerated. -/
theorem enclosed_inj {front back : String} {ps qs : List String} (hp : ∀ p ∈ ps, ',' ∉ p.toList)
    (hq : ∀ q ∈ qs, ',' ∉ q.toList) (h : enclosed front back ps = enclosed front back qs) :
    ps = qs := by
  have hlength := congrArg List.length h
  rw [length_enclosed, length_enclosed] at hlength
  by_cases hps : ps = []
  · subst hps
    exact (List.length_eq_zero_iff.1 hlength.symm).symm
  · have hqs : qs ≠ [] := by
      rintro rfl
      exact hps (List.length_eq_zero_iff.1 hlength)
    -- joined, the front and the back stand around the whole enumeration and cancel
    have hjoined := congrArg ", ".intercalate h
    rw [intercalate_enclosed hps, intercalate_enclosed hqs] at hjoined
    exact pieces_inj hps hqs hp hq (by simpa using hjoined)

/-- Lists with the same image are the same if their members are. -/
theorem eq_of_map_eq_map {α β : Type} {g g' : α → β} {l m : List α} (h : l.map g = m.map g')
    (hinj : ∀ a ∈ l, ∀ b ∈ m, g a = g' b → a = b) : l = m := by
  induction l generalizing m with
  | nil => exact (List.map_eq_nil_iff.1 h.symm).symm
  | cons a l ih =>
    cases m with
    | nil => exact absurd h (List.cons_ne_nil _ _)
    | cons b m =>
      obtain ⟨hhead, htail⟩ := List.cons.inj h
      rw [hinj a List.mem_cons_self b List.mem_cons_self hhead, ih htail fun a ha b hb =>
        hinj a (List.mem_cons_of_mem _ ha) b (List.mem_cons_of_mem _ hb)]

end Workflow.Text
