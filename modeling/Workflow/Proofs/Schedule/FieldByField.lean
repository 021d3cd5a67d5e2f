import Workflow.Proofs.Schedule.CanFire
import Workflow.Proofs.Schedule.RoundTrip

/-! Cron texts are read field by field, and fields that are lists member by member. What is wrong
with a text is what is wrong with its parts, in their order, and it fires when its parts say so. -/
namespace Workflow.Schedule

open Text

section Faults

variable {ε α β : Type}

theorem faults_map (r : Except (List ε) α) (g : α → β) : faults (r.map g) = faults r := by
  cases r with
  | error errors => rfl
  | ok a => rfl

theorem gather_ok_cons (a : α) (rest : List (Except ε α)) :
    gather (.ok a :: rest) = (gather rest).map (a :: ·) := by
  conv_lhs => unfold gather
  cases gather rest with
  | error errors => rfl
  | ok items => rfl

theorem gather_error_cons (e : ε) (rest : List (Except ε α)) :
    gather (.error e :: rest) = .error (e :: faults (gather rest)) :=
  rfl

theorem faults_gather (results : List (Except ε α)) :
    faults (gather results) = results.flatMap fun r => faults (r.mapError ([·])) := by
  induction results with
  | nil => rfl
  | cons r rest ih =>
    rw [List.flatMap_cons, ← ih]
    cases r with
    | error e => rfl
    | ok a =>
      rw [gather_ok_cons, faults_map]
      rfl

/-- Whoever fails says why. -/
theorem gather_eq_ok_of_faults {results : List (Except ε α)} (h : faults (gather results) = []) :
    ∃ items, gather results = .ok items := by
  induction results with
  | nil => exact ⟨[], rfl⟩
  | cons r rest ih =>
    cases r with
    | error e =>
      rw [gather_error_cons] at h
      exact absurd h (List.cons_ne_nil _ _)
    | ok a =>
      rw [gather_ok_cons, faults_map] at h
      obtain ⟨items, hitems⟩ := ih h
      refine ⟨a :: items, ?_⟩
      rw [gather_ok_cons, hitems]
      rfl

end Faults

/-- What is wrong with a member of a field. -/
def atomFaults (f : Field) (part : List Char) : List Fault :=
  faults (((Atom.parse f part).mapError (Fault.atom f)).mapError ([·]))

theorem entry_parse_of_comma {f : Field} {s : List Char} (h : ',' ∈ s) :
    Entry.parse f s = (gather ((splitWhen (· = ',') s).map fun part =>
      (Atom.parse f part).mapError (Fault.atom f))).map Entry.list := by
  have hcontains : s.contains ',' = true := by simpa using h
  unfold Entry.parse
  rw [if_pos hcontains]

theorem faults_entry_parse (f : Field) (s : List Char) :
    faults (Entry.parse f s) = (splitWhen (· = ',') s).flatMap (atomFaults f) := by
  by_cases hs : ',' ∈ s
  · rw [entry_parse_of_comma hs, faults_map, faults_gather, List.flatMap_map]
    rfl
  · -- a text without commas is its only member
    rw [entry_parse_of_no_comma hs, splitWhen_of_not_mem hs, List.flatMap_cons, List.flatMap_nil,
      List.append_nil]
    unfold atomFaults
    cases Atom.parse f s with
    | error e => rfl
    | ok a => rfl

theorem exists_entry_of_faults {f : Field} {s : List Char} (h : faults (Entry.parse f s) = []) :
    ∃ e, Entry.parse f s = .ok e := by
  by_cases hs : ',' ∈ s
  · rw [entry_parse_of_comma hs, faults_map] at h
    obtain ⟨items, hitems⟩ := gather_eq_ok_of_faults h
    refine ⟨.list items, ?_⟩
    rw [entry_parse_of_comma hs, hitems]
    rfl
  · rw [entry_parse_of_no_comma hs] at h ⊢
    cases ha : Atom.parse f s with
    | ok a => exact ⟨.one a, rfl⟩
    | error e =>
      rw [ha] at h
      exact absurd h (List.cons_ne_nil _ _)

/-- A field admits what one of its members does. -/
theorem admits_iff_of_parse {f : Field} {s : List Char} {e : Entry} (h : Entry.parse f s = .ok e)
    (n : Nat) : e.admits n = true ↔
      ∃ part ∈ splitWhen (· = ',') s, ∃ a, Atom.parse f part = .ok a ∧ a.admits n = true := by
  by_cases hs : ',' ∈ s
  · rw [entry_parse_of_comma hs] at h
    obtain ⟨items, hitems, rfl⟩ := map_eq_ok_iff.1 h
    have hmembers := gather_eq_ok_iff.1 hitems
    -- the sets that are read are those of the members, since no member failed
    have hmem (a : Atom) : a ∈ items ↔
        ∃ part ∈ splitWhen (· = ',') s, Atom.parse f part = .ok a := by
      have hok : a ∈ items ↔ (Except.ok a : Except Fault Atom) ∈ items.map .ok := by simp
      rw [hok, ← hmembers, List.mem_map]
      simp only [mapError_eq_ok_iff]
    have hany : (Entry.list items).admits n = true ↔ ∃ a ∈ items, a.admits n = true :=
      List.any_eq_true
    rw [hany]
    constructor
    · rintro ⟨a, ha, hn⟩
      obtain ⟨part, hpart, hparse⟩ := (hmem a).1 ha
      exact ⟨part, hpart, a, hparse, hn⟩
    · rintro ⟨part, hpart, a, hparse, hn⟩
      exact ⟨a, (hmem a).2 ⟨part, hpart, hparse⟩, hn⟩
  · rw [entry_parse_of_no_comma hs] at h
    obtain ⟨a, ha, rfl⟩ := map_eq_ok_iff.1 (mapError_eq_ok_iff.1 h)
    have hparse := mapError_eq_ok_iff.1 ha
    have hone : (Entry.one a).admits n = true ↔ a.admits n = true := by
      simp [Entry.admits, Entry.atoms]
    rw [hone, splitWhen_of_not_mem hs]
    simp [hparse]

namespace Cron

/-- Five texts with a blank between them. -/
def joined (text : Field → List Char) : List Char :=
  [' '].intercalate (Field.all.map text)

/-- The text of one field, with all values for the others. -/
def alone (f : Field) (s : List Char) : List Char :=
  joined fun g => if g = f then s else ['*']

def ofEntries (entry : Field → Entry) : Cron :=
  ⟨entry .minute, entry .hour, entry .dayOfMonth, entry .month, entry .dayOfWeek⟩

theorem entry_ofEntries (entry : Field → Entry) (f : Field) : (ofEntries entry).entry f = entry f := by
  cases f <;> rfl

theorem words_joined {text : Field → List Char} (h : ∀ f, IsWord (text f)) :
    words (joined text) = Field.all.map text := by
  rw [words_eq_iff]
  apply spaced_intercalate
  rw [List.forall_mem_map]
  exact fun f _ => h f

theorem words_alone {f : Field} {s : List Char} (h : IsWord s) :
    words (alone f s) = Field.all.map fun g => if g = f then s else ['*'] := by
  apply words_joined
  intro g
  by_cases hg : g = f
  · rwa [if_pos hg]
  · rw [if_neg hg]
    exact ⟨List.cons_ne_nil _ _, List.forall_mem_singleton.2 rfl⟩

section Words

variable {s : List Char} {text : Field → List Char} (hwords : words s = Field.all.map text)
include hwords

theorem parse_eq_ok_iff_of_words {c : Cron} :
    parse s = .ok c ↔ ∀ f, Entry.parse f (text f) = .ok (c.entry f) := by
  have hall : List.Forall₂ (fun f t => Entry.Written PositiveWord f t (c.entry f)) Field.all
      (Field.all.map text) ↔ ∀ f, Entry.parse f (text f) = .ok (c.entry f) := by
    rw [List.forall₂_map_right_iff, List.forall₂_same]
    simp only [← entry_parse_eq_ok_iff]
    exact ⟨fun h f => h f f.mem_all, fun h f _ => h f⟩
  rw [cron_parse_eq_ok_iff, ← hall]
  constructor
  · rintro ⟨texts, hspaced, hentries⟩
    have htexts : texts = Field.all.map text := (words_eq_iff.2 hspaced).symm.trans hwords
    rwa [htexts] at hentries
  · intro hentries
    exact ⟨_, words_eq_iff.1 hwords, hentries⟩

theorem faults_parse_of_words :
    faults (parse s) = Field.all.flatMap fun f => faults (Entry.parse f (text f)) := by
  have hfields : words s = [text .minute, text .hour, text .dayOfMonth, text .month,
      text .dayOfWeek] := hwords
  have hflat : Field.all.flatMap (fun f => faults (Entry.parse f (text f))) =
      faults (Entry.parse .minute (text .minute)) ++ faults (Entry.parse .hour (text .hour)) ++
        faults (Entry.parse .dayOfMonth (text .dayOfMonth)) ++
        faults (Entry.parse .month (text .month)) ++
        faults (Entry.parse .dayOfWeek (text .dayOfWeek)) := by
    simp [Field.all]
  rw [hflat]
  unfold parse
  rw [hfields]
  dsimp only
  split
  · rename_i h1 h2 h3 h4 h5
    rw [h1, h2, h3, h4, h5]
    rfl
  · rfl

theorem exists_parse_iff_of_words :
    (∃ c, parse s = .ok c) ↔ faults (parse s) = [] := by
  constructor
  · rintro ⟨c, hc⟩
    rw [hc]
    rfl
  · -- fields without faults have entries, and the schedule is made of these
    intro h
    rw [faults_parse_of_words hwords, List.flatMap_eq_nil_iff] at h
    have hentry (f : Field) : ∃ e, Entry.parse f (text f) = .ok e :=
      exists_entry_of_faults (h f f.mem_all)
    choose entry hentry using hentry
    refine ⟨ofEntries entry, (parse_eq_ok_iff_of_words hwords).2 fun f => ?_⟩
    rw [entry_ofEntries, hentry]

theorem textFiresAt_iff_of_words (t : Time.Timestamp) :
    textFiresAt s t = true ↔
      ∀ f, ∃ e, Entry.parse f (text f) = .ok e ∧ e.admits (f.valueAt t) = true := by
  have hfires : textFiresAt s t = true ↔ ∃ c, parse s = .ok c ∧ c.firesAt t = true := by
    unfold textFiresAt
    cases parse s with
    | error errors => simp
    | ok c => simp
  rw [hfires]
  constructor
  · rintro ⟨c, hc, ht⟩ f
    exact ⟨c.entry f, (parse_eq_ok_iff_of_words hwords).1 hc f, (c.firesAt_iff t).1 ht f⟩
  · intro h
    choose entry hentry hadmits using h
    refine ⟨ofEntries entry, (parse_eq_ok_iff_of_words hwords).2 fun f => ?_, ?_⟩
    · rw [entry_ofEntries, hentry]
    · rw [firesAt_iff]
      intro f
      rw [entry_ofEntries, hadmits]

end Words

/-- A text is a schedule exactly if nothing is wrong with it. -/
theorem exists_parse_iff (s : List Char) : (∃ c, parse s = .ok c) ↔ issues s = [] := by
  have hissues : issues s = [] ↔ faults (parse s) = [] := List.map_eq_nil_iff
  rw [hissues]
  by_cases h : ∃ text : Field → List Char, words s = Field.all.map text
  · obtain ⟨text, hwords⟩ := h
    exact exists_parse_iff_of_words hwords
  · -- with another number of fields that is what is wrong
    have hcount : parse s = .error [.fieldCount (words s).length] := by
      unfold parse
      split
      · rename_i minute hour dayOfMonth month dayOfWeek hwords
        let fields := [minute, hour, dayOfMonth, month, dayOfWeek]
        exact absurd ⟨fun f => fields.getD (Field.all.idxOf f) [], hwords⟩ h
      · rfl
    rw [hcount]
    simp [faults]

theorem faults_alone {f : Field} {s : List Char} (h : IsWord s) :
    faults (parse (alone f s)) = faults (Entry.parse f s) := by
  -- a star is right in every field
  have hstar (g : Field) : faults (Entry.parse g ['*']) = [] := rfl
  rw [faults_parse_of_words (words_alone h)]
  cases f <;> simp [Field.all, hstar]

theorem issues_alone {f : Field} {s : List Char} (h : IsWord s) :
    issues (alone f s) = (faults (Entry.parse f s)).map Fault.issue := by
  unfold issues
  rw [faults_alone h]

theorem textFiresAt_alone_iff {f : Field} {s : List Char} (h : IsWord s) (t : Time.Timestamp) :
    textFiresAt (alone f s) t = true ↔
      ∃ e, Entry.parse f s = .ok e ∧ e.admits (f.valueAt t) = true := by
  rw [textFiresAt_iff_of_words (words_alone h)]
  constructor
  · intro hall
    have hf := hall f
    rwa [if_pos rfl] at hf
  · rintro ⟨e, he, hadmits⟩ g
    by_cases hg : g = f
    · subst hg
      rw [if_pos rfl]
      exact ⟨e, he, hadmits⟩
    · rw [if_neg hg]
      exact ⟨.any, rfl, rfl⟩

/-- A field that can be read fires for its members. -/
theorem textFiresAt_iff_of_valid {f : Field} {s : List Char} (h : IsWord s)
    (hvalid : issues (alone f s) = []) (t : Time.Timestamp) : textFiresAt (alone f s) t = true ↔
      ∃ piece ∈ splitWhen (· = ',') s,
        ∃ a, Atom.parse f piece = .ok a ∧ a.admits (f.valueAt t) = true := by
  rw [issues_alone h, List.map_eq_nil_iff] at hvalid
  obtain ⟨e, he⟩ := exists_entry_of_faults hvalid
  rw [textFiresAt_alone_iff h, ← admits_iff_of_parse he]
  constructor
  · rintro ⟨e', he', hadmits⟩
    obtain rfl := Except.ok.inj (he.symm.trans he')
    exact hadmits
  · intro hadmits
    exact ⟨e, he, hadmits⟩

theorem issues_joined {text : Field → List Char} (h : ∀ f, IsWord (text f)) :
    issues (joined text) = Field.all.flatMap fun f => issues (alone f (text f)) := by
  have hfield (f : Field) :
      issues (alone f (text f)) = (faults (Entry.parse f (text f))).map Fault.issue :=
    issues_alone (h f)
  simp only [hfield]
  unfold issues
  rw [faults_parse_of_words (words_joined h), List.map_flatMap]

theorem textFiresAt_joined_iff {text : Field → List Char} (h : ∀ f, IsWord (text f))
    (t : Time.Timestamp) : textFiresAt (joined text) t = true ↔
      ∀ f, textFiresAt (alone f (text f)) t = true := by
  rw [textFiresAt_iff_of_words (words_joined h)]
  apply forall_congr'
  intro f
  rw [textFiresAt_alone_iff (h f)]

end Cron

/-- Members put together are a field as it may be written. -/
theorem isWord_intercalate {parts : List (List Char)} (hne : parts ≠ [])
    (h : ∀ part ∈ parts, IsWord part) : IsWord ([','].intercalate parts) := by
  constructor
  · obtain ⟨part, rest, rfl⟩ := List.exists_cons_of_ne_nil hne
    obtain ⟨c, hc⟩ := List.exists_mem_of_ne_nil part (h part List.mem_cons_self).1
    exact List.ne_nil_of_mem (mem_intercalate_iff.2 (.inl ⟨part, List.mem_cons_self, hc⟩))
  · intro c hc
    rcases mem_intercalate_iff.1 hc with ⟨part, hpart, hmem⟩ | ⟨rfl, -⟩
    · exact (h part hpart).2 c hmem
    · rfl

namespace Cron

section Members

variable {parts : List (List Char)} (hne : parts ≠ []) (h : ∀ part ∈ parts, IsWord part)
include hne h

theorem issues_members (f : Field) :
    issues (alone f ([','].intercalate parts)) = parts.flatMap fun part => issues (alone f part) := by
  have hpart : ∀ part ∈ parts, issues (alone f part) =
      ((splitWhen (· = ',') part).flatMap (atomFaults f)).map Fault.issue := by
    intro part hmem
    rw [issues_alone (h part hmem), faults_entry_parse]
  rw [issues_alone (isWord_intercalate hne h), faults_entry_parse, splitWhen_intercalate hne,
    List.flatMap_assoc, List.map_flatMap, List.flatMap_congr hpart]

theorem textFiresAt_members_iff {f : Field}
    (hvalid : issues (alone f ([','].intercalate parts)) = []) (t : Time.Timestamp) :
    textFiresAt (alone f ([','].intercalate parts)) t = true ↔
      ∃ part ∈ parts, textFiresAt (alone f part) t = true := by
  -- a part may be a list itself, so that its members are compared and not the parts
  have hparts : ∀ part ∈ parts, issues (alone f part) = [] := by
    rwa [issues_members hne h, List.flatMap_eq_nil_iff] at hvalid
  rw [textFiresAt_iff_of_valid (isWord_intercalate hne h) hvalid, splitWhen_intercalate hne]
  simp only [List.mem_flatMap]
  constructor
  · rintro ⟨piece, ⟨part, hpart, hpiece⟩, hadmits⟩
    refine ⟨part, hpart, ?_⟩
    rw [textFiresAt_iff_of_valid (h part hpart) (hparts part hpart)]
    exact ⟨piece, hpiece, hadmits⟩
  · rintro ⟨part, hpart, hfires⟩
    rw [textFiresAt_iff_of_valid (h part hpart) (hparts part hpart)] at hfires
    obtain ⟨piece, hpiece, hadmits⟩ := hfires
    exact ⟨piece, ⟨part, hpart, hpiece⟩, hadmits⟩

end Members

/-- Texts of schedules are validated and matched part by part. The issues of five fields are those
of each field alone, with all values for the others, from the first field to the last; the issues of
members with commas between them are those of each member. A text is a schedule exactly if it has no
issues. It fires when each of its fields does, and a list that has no issues when one of its members
does. -/
theorem checked_and_matched_by_parts :
    (∀ text : Field → List Char, (∀ f, IsWord (text f)) →
      issues (joined text) = (Field.all.flatMap fun f => issues (alone f (text f))) ∧
        ∀ t, textFiresAt (joined text) t = true ↔ ∀ f, textFiresAt (alone f (text f)) t = true) ∧
    (∀ (f : Field) (parts : List (List Char)), parts ≠ [] → (∀ part ∈ parts, IsWord part) →
      issues (alone f ([','].intercalate parts)) =
          (parts.flatMap fun part => issues (alone f part)) ∧
        (issues (alone f ([','].intercalate parts)) = [] →
          ∀ t, textFiresAt (alone f ([','].intercalate parts)) t = true ↔
            ∃ part ∈ parts, textFiresAt (alone f part) t = true)) ∧
    ∀ s, (∃ c, parse s = .ok c) ↔ issues s = [] := by
  refine ⟨?_, ?_, exists_parse_iff⟩
  · intro text h
    exact ⟨issues_joined h, textFiresAt_joined_iff h⟩
  · intro f parts hne h
    exact ⟨issues_members hne h f, textFiresAt_members_iff hne h⟩

/-- Two fields with faults, and the days of a weekend. -/
theorem checked_and_matched_by_parts_weekend :
    (issues "61 * * * *".toList).map (·.field) = ["minute"] ∧
      (issues "* * * * sat".toList).map (·.field) = ["dayOfWeek"] ∧
      issues "61 * * * sat".toList = issues "61 * * * *".toList ++ issues "* * * * sat".toList ∧
      ∀ t, textFiresAt "* * * * 0,6".toList t = true ↔
        textFiresAt "* * * * 0".toList t = true ∨ textFiresAt "* * * * 6".toList t = true := by
  obtain ⟨hfields, hmembers, -⟩ := checked_and_matched_by_parts
  refine ⟨by decide, by decide, ?_, ?_⟩
  · let text (f : Field) : List Char :=
      if f = .minute then "61".toList else if f = .dayOfWeek then "sat".toList else ['*']
    have hwords (f : Field) : IsWord (text f) := by
      cases f <;> simp [text, IsWord, isBlank]
    have hstar : issues "* * * * *".toList = [] := rfl
    have h := (hfields text hwords).1
    simp only [Field.all, List.flatMap_cons, List.flatMap_nil, List.append_nil] at h
    have hhour : alone .hour (text .hour) = "* * * * *".toList := rfl
    have hday : alone .dayOfMonth (text .dayOfMonth) = "* * * * *".toList := rfl
    have hmonth : alone .month (text .month) = "* * * * *".toList := rfl
    rw [hhour, hday, hmonth, hstar, List.nil_append, List.nil_append, List.nil_append] at h
    exact h
  · intro t
    have hwords : ∀ part ∈ [['0'], ['6']], IsWord part := by
      simp [IsWord, isBlank]
    have h := (hmembers .dayOfWeek [['0'], ['6']] (by simp) hwords).2 rfl t
    simp only [List.exists_mem_cons_iff, List.not_mem_nil, false_and, exists_false, or_false] at h
    exact h

end Cron

end Workflow.Schedule
