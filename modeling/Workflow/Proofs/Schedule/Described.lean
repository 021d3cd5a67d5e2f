import Workflow.Proofs.Schedule.FieldByField
import Workflow.Proofs.Schedule.Segments

/-! Descriptions can be trusted: they tell texts that are no schedules, and texts with the same
description are the same schedule. The fixed phrases for some texts are none that fields put
together, or else the one that the fields of that text put together. -/
namespace Workflow.Schedule

open Text Time

theorem words_intercalate_words (s : List Char) : words ([' '].intercalate (words s)) = words s := by
  have hwords : ∀ w ∈ words s, IsWord w := by
    intro w hw
    obtain ⟨hmem, hne⟩ := List.mem_filter.1 hw
    exact ⟨by simpa using hne, not_of_mem_splitWhen hmem⟩
  exact words_eq_iff.2 (spaced_intercalate hwords)

theorem parse_congr {s t : List Char} (h : words s = words t) : Cron.parse s = Cron.parse t := by
  unfold Cron.parse
  rw [h]

theorem exists_knownPhrase {s : List Char} {d : String}
    (h : knownPhrases.lookup (String.ofList ([' '].intercalate (words s))) = some d) :
    ∃ row ∈ knownPhrases, d = row.2 ∧ Cron.parse s = Cron.parse row.1.toList := by
  obtain ⟨before, after, hrows, -⟩ := List.lookup_eq_some_iff.1 h
  refine ⟨(String.ofList ([' '].intercalate (words s)), d), ?_, rfl, ?_⟩
  · rw [hrows]
    exact List.mem_append_right _ List.mem_cons_self
  · apply parse_congr
    rw [String.toList_ofList, words_intercalate_words]

theorem exists_parse_of_mem {row : String × String} (h : row ∈ knownPhrases) :
    ∃ c, Cron.parse row.1.toList = .ok c := by
  have hall : ∀ row ∈ knownPhrases, Cron.issues row.1.toList = [] := by decide
  exact (Cron.exists_parse_iff _).2 (hall row h)

theorem knownPhrases_inj {row row' : String × String} (h : row ∈ knownPhrases)
    (h' : row' ∈ knownPhrases) (hsame : row.2 = row'.2) : row = row' := by
  have hall : ∀ row ∈ knownPhrases, ∀ row' ∈ knownPhrases, row.2 = row'.2 → row = row' := by decide
  exact hall row h row' h' hsame

/-- A fixed phrase that fields put together is put together from those of its text. -/
theorem eq_of_phrase_eq {row : String × String} (h : row ∈ knownPhrases) {c c' : Cron}
    (hparse : Cron.parse row.1.toList = .ok c) (hc' : c'.WellFormed) (hphrase : c'.phrase = row.2) :
    c = c' := by
  have hcomma : ∀ row ∈ knownPhrases, ',' ∉ row.2.toList := by decide
  have hheading : ∀ row ∈ knownPhrases, heading? row.2 = some .minute →
      (Cron.parse row.1.toList).toOption.map Cron.phrase = some row.2 := by decide
  -- a fixed phrase that begins with the minute is the one that the fields of its text give
  by_cases hrow : heading? row.2 = some .minute
  · have hown : c.phrase = row.2 := by
      have hsome := hheading row h hrow
      rw [hparse] at hsome
      exact Option.some.inj hsome
    exact Cron.phrase_inj (wellFormed_of_parse hparse).1 hc' (hown.trans hphrase.symm)
  · exact absurd hphrase (Cron.phrase_ne hc' (hcomma row h) hrow)

/-- What a text that is a schedule is described with. -/
theorem describe_of_parse {s : List Char} {c : Cron} (h : Cron.parse s = .ok c) :
    describe s = c.phrase ∨
      ∃ row ∈ knownPhrases, describe s = row.2 ∧ Cron.parse row.1.toList = .ok c := by
  unfold describe
  split
  · rename_i d hd
    obtain ⟨row, hrow, rfl, hsame⟩ := exists_knownPhrase hd
    exact Or.inr ⟨row, hrow, rfl, hsame ▸ h⟩
  · rw [h]
    exact Or.inl rfl

theorem describe_of_error {s : List Char} {errors : List Fault} (h : Cron.parse s = .error errors) :
    describe s = invalidText := by
  unfold describe
  split
  · rename_i d hd
    obtain ⟨row, hrow, -, hsame⟩ := exists_knownPhrase hd
    obtain ⟨c, hc⟩ := exists_parse_of_mem hrow
    rw [← hsame, h] at hc
    exact absurd hc (by simp)
  · rw [h]

theorem describe_ne_invalidText {s : List Char} {c : Cron} (h : Cron.parse s = .ok c) :
    describe s ≠ invalidText := by
  have hknown : ∀ row ∈ knownPhrases, row.2 ≠ invalidText := by decide
  rcases describe_of_parse h with hs | ⟨row, hrow, hs, -⟩
  · rw [hs]
    exact Cron.phrase_ne (wellFormed_of_parse h).1 (by decide) (by decide)
  · rw [hs]
    exact hknown row hrow

theorem describe_eq_invalidText_iff (s : List Char) :
    describe s = invalidText ↔ Cron.issues s ≠ [] := by
  rw [ne_eq, ← Cron.exists_parse_iff]
  constructor
  · rintro hs ⟨c, hc⟩
    exact describe_ne_invalidText hc hs
  · intro hs
    cases h : Cron.parse s with
    | error errors => exact describe_of_error h
    | ok c => exact absurd ⟨c, h⟩ hs

/-- Texts with the same description are read as the same schedule. -/
theorem eq_of_describe_eq {s s' : List Char} {c c' : Cron} (h : Cron.parse s = .ok c)
    (h' : Cron.parse s' = .ok c') (hsame : describe s = describe s') : c = c' := by
  have hc := (wellFormed_of_parse h).1
  have hc' := (wellFormed_of_parse h').1
  -- each of both texts has a phrase of its fields or a fixed one
  rcases describe_of_parse h with hs | ⟨row, hrow, hs, hparse⟩
  · rcases describe_of_parse h' with hs' | ⟨row', hrow', hs', hparse'⟩
    · rw [hs, hs'] at hsame
      exact Cron.phrase_inj hc hc' hsame
    · rw [hs, hs'] at hsame
      exact (eq_of_phrase_eq hrow' hparse' hc hsame).symm
  · rcases describe_of_parse h' with hs' | ⟨row', hrow', hs', hparse'⟩
    · rw [hs, hs'] at hsame
      exact eq_of_phrase_eq hrow hparse hc' hsame.symm
    · rw [hs, hs'] at hsame
      obtain rfl := knownPhrases_inj hrow hrow' hsame
      exact Except.ok.inj (hparse.symm.trans hparse')

/-- Descriptions are faithful. Just the texts that have issues are described as no schedules. Texts
without issues that have the same description are read as the same schedule, and so they fire at the
same times. -/
theorem describe_faithful :
    (∀ s, describe s = invalidText ↔ Cron.issues s ≠ []) ∧
    ∀ s s', Cron.issues s = [] → Cron.issues s' = [] → describe s = describe s' →
      Cron.parse s = Cron.parse s' ∧ ∀ t, Cron.textFiresAt s t = Cron.textFiresAt s' t := by
  refine ⟨describe_eq_invalidText_iff, ?_⟩
  intro s s' hs hs' hsame
  obtain ⟨c, hc⟩ := (Cron.exists_parse_iff s).2 hs
  obtain ⟨c', hc'⟩ := (Cron.exists_parse_iff s').2 hs'
  have hparse : Cron.parse s = Cron.parse s' := by
    rw [hc, hc', eq_of_describe_eq hc hc' hsame]
  refine ⟨hparse, fun t => ?_⟩
  unfold Cron.textFiresAt
  rw [hparse]

/-- A fixed phrase that a text of another form has as well. -/
theorem describe_faithful_five_minutes :
    describe "61 * * * *".toList = invalidText ∧
      describe "*/05 * * * *".toList = describe "*/5 * * * *".toList ∧
      ∀ t, Cron.textFiresAt "*/05 * * * *".toList t = Cron.textFiresAt "*/5 * * * *".toList t := by
  obtain ⟨hinvalid, hsame⟩ := describe_faithful
  have hdescribe : describe "*/05 * * * *".toList = describe "*/5 * * * *".toList := by decide
  refine ⟨(hinvalid _).2 (by decide), hdescribe, ?_⟩
  exact (hsame _ _ rfl rfl hdescribe).2

end Workflow.Schedule
