import Mathlib
import Workflow.Proofs.Schedule.Label
import Workflow.Proofs.Text.Sentences

/-! What is said of each field, as an enumeration of pieces: a sentence for one set, and for a list the
labels of its sets between a front and a back. An entry is told by the pieces of its field. -/
namespace Workflow.Schedule

open Text Time

/-- A unit behind a number. -/
def unitWord (n : Nat) (unit : String) : String :=
  if n = 1 then unit else unit ++ "s"

namespace Atom

def minuteWords : Atom → List String
  | .wildcard => ["Every", "minute"]
  | .step none width => ["Every", toString width, unitWord width "minute"]
  | .step (some (start, stop)) width =>
    ["Every", toString width, unitWord width "minute", "from", "minute", toString start, "through",
      toString stop, "past", "the", "hour"]
  | .range start stop =>
    ["Every", "minute", "from", toString start, "through", toString stop, "past", "the", "hour"]
  | .value n =>
    if n = 0 then ["At", "the", "start", "of", "the", "hour"]
    else ["At", toString n, unitWord n "minute", "past", "the", "hour"]

def hourWords : Atom → List String
  | .wildcard => []
  | .step none width => ["every", toString width, unitWord width "hour"]
  | .step (some (start, stop)) width =>
    ["every", toString width, unitWord width "hour", "from", toString (hourOfTwelve start),
      halfOfDay start, "through", toString (hourOfTwelve stop), halfOfDay stop]
  | .range start stop =>
    ["between", toString (hourOfTwelve start), halfOfDay start, "and",
      toString (hourOfTwelve stop), halfOfDay stop]
  | .value n => ["during", "the", toString (hourOfTwelve n), halfOfDay n, "hour"]

def dayOfMonthWords : Atom → List String
  | .wildcard => []
  | .step none width => ["every", toString width, unitWord width "day"]
  | .step (some (start, stop)) width =>
    ["every", toString width, unitWord width "day", "from", "day", toString start, "through",
      toString stop]
  | .range start stop =>
    ["on", "days", toString start, "through", toString stop, "of", "the", "month"]
  | .value n => ["on", "day", toString n, "of", "the", "month"]

/-- The words for months and for days of the week, whose values have names. -/
def namedWords (f : Field) (unit : String) (rest : List String) (preposition : String) :
    Atom → List String
  | .wildcard => []
  | .step none width => "every" :: toString width :: unitWord width unit :: rest
  | .step (some (start, stop)) width =>
    "every" :: toString width :: unitWord width unit ::
      (rest ++ ["from", f.valueName start, "through", f.valueName stop])
  | .range start stop => [f.valueName start, "through", f.valueName stop]
  | .value n => ["only", preposition, f.valueName n]

def said (f : Field) (a : Atom) : List String :=
  match f with
  | .minute => a.minuteWords
  | .hour => a.hourWords
  | .dayOfMonth => a.dayOfMonthWords
  | .month => a.namedWords .month "month" [] "in"
  | .dayOfWeek => a.namedWords .dayOfWeek "day" ["of", "the", "week"] "on"

end Atom

namespace Field

def front : Field → String
  | .minute => "At minutes"
  | .hour => "during"
  | .dayOfMonth => "on days"
  | .month => "only in"
  | .dayOfWeek => "only on"

def back : Field → String
  | .minute => " past the hour"
  | .dayOfMonth => " of the month"
  | _ => ""

end Field

namespace Entry

def pieces (f : Field) : Entry → List String
  | .one a => if a.said f = [] then [] else [" ".intercalate (a.said f)]
  | .list items => enclosed (f.front ++ " ") f.back (items.map (·.label f))

/-- What the field is described with, if at all. -/
def phrase? (f : Field) (e : Entry) : Option String :=
  match f with
  | .minute => some (minutePhrase e)
  | .hour => hourPhrase? e
  | .dayOfMonth => dayOfMonthPhrase? e
  | .month => monthPhrase? e
  | .dayOfWeek => dayOfWeekPhrase? e

end Entry

/-- Pieces that are enumerated, if there are any. -/
def joined? (pieces : List String) : Option String :=
  if pieces = [] then none else some (", ".intercalate pieces)

theorem toList_counted (n : Nat) (unit : String) :
    (counted n unit).toList = (toString n).toList ++ ' ' :: (unitWord n unit).toList := by
  unfold counted unitWord
  by_cases hn : n = 1
  · subst hn
    rw [if_pos rfl, if_pos rfl, String.toList_append]
    rfl
  · rw [if_neg hn, if_neg hn, String.append_assoc, String.toList_append, String.toList_append,
      List.append_assoc]
    rfl

theorem minutePhrase_one (a : Atom) : minutePhrase (.one a) = " ".intercalate a.minuteWords := by
  rw [← String.toList_inj]
  cases a with
  | wildcard => rfl
  | value n =>
    by_cases hn : n = 0
    · subst hn
      rfl
    · have hphrase : minutePhrase (.one (.value n)) =
          "At " ++ counted n "minute" ++ " past the hour" := by
        obtain ⟨m, rfl⟩ := Nat.exists_eq_succ_of_ne_zero hn
        rfl
      have hwords : (Atom.value n).minuteWords =
        ["At", toString n, unitWord n "minute", "past", "the", "hour"] := if_neg hn
      rw [hphrase, hwords]
      simp only [toList_words_cons, toList_counted, String.toList_append, List.append_assoc]
      rfl
  | range start stop =>
    unfold minutePhrase Atom.minuteWords
    simp only [toList_words_cons, String.toList_append, List.append_assoc]
    rfl
  | step ends width =>
    rcases ends with _ | ⟨start, stop⟩ <;> unfold minutePhrase Atom.minuteWords
    all_goals
      simp only [toList_words_cons, toList_counted, String.toList_append, List.append_assoc]
      rfl

/-- A set that something is said of. -/
theorem phrase?_one {f : Field} {a : Atom} (h : a.said f ≠ []) :
    (Entry.one a).phrase? f = some (" ".intercalate (a.said f)) := by
  cases f
  case minute => exact congrArg some (minutePhrase_one a)
  all_goals
    rcases a with _ | ⟨_ | ⟨start, stop⟩, width⟩ | ⟨start, stop⟩ | n
    · exact absurd rfl h
    -- the fixed words and the blanks between them are compared character by character
    all_goals
      simp only [Entry.phrase?, hourPhrase?, dayOfMonthPhrase?, monthPhrase?, dayOfWeekPhrase?,
        Atom.said, Atom.hourWords, Atom.dayOfMonthWords, Atom.namedWords,
        List.nil_append, List.cons_append, Option.some.injEq]
      rw [← String.toList_inj]
      simp only [toList_words_cons, toList_counted, toList_hourLabel, String.toList_append,
        List.append_assoc]
      rfl

theorem minuteWords_ne_nil (a : Atom) : a.minuteWords ≠ [] := by
  rcases a with _ | ⟨_ | _, _⟩ | _ | n
  case value =>
    show (if n = 0 then _ else _) ≠ []
    split <;> exact List.cons_ne_nil _ _
  all_goals exact List.cons_ne_nil _ _

theorem phrase?_one_of_nil {f : Field} {a : Atom} (h : a.said f = []) :
    (Entry.one a).phrase? f = none := by
  cases f
  case minute => exact absurd h (minuteWords_ne_nil a)
  all_goals
    rcases a with _ | ⟨_ | _, _⟩ | _ | _
    · rfl
    all_goals exact absurd h (List.cons_ne_nil _ _)

theorem phrase?_list (f : Field) (items : List Atom) : (Entry.list items).phrase? f =
    some (f.front ++ " " ++ (Entry.list items).label f ++ f.back) := by
  cases f with
  | minute => rfl
  | dayOfMonth => rfl
  | hour | month | dayOfWeek =>
    simp only [Field.back, String.append_empty]
    rfl

/-- A field is described with its pieces. -/
theorem phrase?_eq {f : Field} {e : Entry} (h : e.WellFormed f) :
    e.phrase? f = joined? (e.pieces f) := by
  unfold joined?
  cases e with
  | one a =>
    by_cases hsaid : a.said f = []
    · have hpieces : (Entry.one a).pieces f = [] := if_pos hsaid
      rw [phrase?_one_of_nil hsaid, if_pos hpieces]
    · have hpieces : (Entry.one a).pieces f = [" ".intercalate (a.said f)] := if_neg hsaid
      rw [phrase?_one hsaid, hpieces, if_neg (List.cons_ne_nil _ _), String.intercalate_singleton]
  | list items =>
    have hlabels : items.map (·.label f) ≠ [] := by
      intro hnil
      obtain rfl := List.map_eq_nil_iff.1 hnil
      exact absurd (h.2 [] rfl) (by decide)
    have hpieces : (Entry.list items).pieces f ≠ [] := by
      intro hnil
      have hlength := congrArg List.length hnil
      rw [Entry.pieces, length_enclosed] at hlength
      exact hlabels (List.length_eq_zero_iff.1 hlength)
    rw [phrase?_list, if_neg hpieces, Entry.pieces, intercalate_enclosed hlabels]
    rfl

theorem isPlain_unitWord {unit : String} (h : unit ∈ ["minute", "hour", "day", "month"]) (n : Nat) :
    IsPlain (unitWord n unit) := by
  have hall : ∀ unit ∈ ["minute", "hour", "day", "month"], IsPlain unit ∧ IsPlain (unit ++ "s") := by
    decide
  unfold unitWord
  split
  · exact (hall unit h).1
  · exact (hall unit h).2

theorem isPlain_halfOfDay (hour : Nat) : IsPlain (halfOfDay hour) := by
  unfold halfOfDay
  split <;> decide

theorem isPlain_valueName {f : Field} (hf : f ≠ .hour) {n : Nat} (h : f.Admits n) :
    IsPlain (f.valueName n) := by
  cases f with
  | hour => exact absurd rfl hf
  | minute | dayOfMonth => exact isPlain_toString n
  | month =>
    have hall : ∀ n ≤ 12, IsPlain (Field.month.valueName n) := by decide
    exact hall n h.2
  | dayOfWeek =>
    have hall : ∀ n ≤ 6, IsPlain (Field.dayOfWeek.valueName n) := by decide
    exact hall n h.2

theorem isPlain_of_mem_said {f : Field} {a : Atom} (h : a.WellFormed f) :
    ∀ w ∈ a.said f, IsPlain w := by
  have hmonth {n : Nat} : Field.month.Admits n → IsPlain (Field.month.valueName n) :=
    isPlain_valueName (by decide)
  have hday {n : Nat} : Field.dayOfWeek.Admits n → IsPlain (Field.dayOfWeek.valueName n) :=
    isPlain_valueName (by decide)
  have hnumber (n : Nat) : IsPlain n.repr := isPlain_toString n
  -- words are numbers, units, names, or written out
  cases f <;> rcases a with _ | ⟨_ | ⟨start, stop⟩, width⟩ | ⟨start, stop⟩ | _ | n <;>
    simp only [Atom.WellFormed] at h <;>
    simp +decide [Atom.said, Atom.minuteWords, Atom.hourWords, Atom.dayOfMonthWords,
      Atom.namedWords, hnumber, isPlain_unitWord, isPlain_halfOfDay, hmonth, hday, h]

theorem repr_ne_through (n : Nat) : n.repr ≠ "through" := by
  intro h
  have hmem : 't' ∈ (toString n).toList := by
    have hrepr : toString n = "through" := h
    rw [hrepr]
    decide
  exact not_mem_toString rfl n hmem

section Injective

variable {a b : Atom}

theorem minuteWords_inj (h : a.minuteWords = b.minuteWords) : a = b := by
  -- two sets of different forms differ in a fixed word or in the number of words
  rcases a with _ | ⟨_ | ⟨start, stop⟩, width⟩ | ⟨start, stop⟩ | _ | n <;>
    rcases b with _ | ⟨_ | ⟨start', stop'⟩, width'⟩ | ⟨start', stop'⟩ | _ | n' <;>
    simp [Atom.minuteWords] at h
  all_goals simp_all

theorem dayOfMonthWords_inj (h : a.dayOfMonthWords = b.dayOfMonthWords) : a = b := by
  rcases a with _ | ⟨_ | ⟨start, stop⟩, width⟩ | ⟨start, stop⟩ | n <;>
    rcases b with _ | ⟨_ | ⟨start', stop'⟩, width'⟩ | ⟨start', stop'⟩ | n' <;>
    simp [Atom.dayOfMonthWords] at h
  all_goals simp_all

theorem hourWords_inj (ha : a.WellFormed .hour) (hb : b.WellFormed .hour)
    (h : a.hourWords = b.hourWords) : a = b := by
  rcases a with _ | ⟨_ | ⟨start, stop⟩, width⟩ | ⟨start, stop⟩ | n <;>
    rcases b with _ | ⟨_ | ⟨start', stop'⟩, width'⟩ | ⟨start', stop'⟩ | n' <;>
    simp [Atom.hourWords] at h
  case wildcard.wildcard => rfl
  case value.value => rw [hour_inj ha hb h.1 h.2]
  case range.range =>
    obtain ⟨hstart, hstartHalf, hstop, hstopHalf⟩ := h
    rw [hour_inj ha.1 hb.1 hstart hstartHalf, hour_inj ha.2.1 hb.2.1 hstop hstopHalf]
  case step.none.step.none => rw [h.1]
  case step.some.step.some =>
    obtain ⟨rfl, -, hstart, hstartHalf, hstop, hstopHalf⟩ := h
    rw [hour_inj ha.1 hb.1 hstart hstartHalf, hour_inj ha.2.1 hb.2.1 hstop hstopHalf]

theorem namedWords_inj {f : Field} {unit preposition : String} {rest : List String}
    (ha : a.WellFormed f) (hb : b.WellFormed f) (hpreposition : preposition ≠ "through")
    (h : a.namedWords f unit rest preposition = b.namedWords f unit rest preposition) : a = b := by
  -- steps, ranges and values can all have three words, but then ranges differ in the second one
  have hthrough (n : Nat) : "through" ≠ n.repr := (repr_ne_through n).symm
  rcases a with _ | ⟨_ | ⟨start, stop⟩, width⟩ | ⟨start, stop⟩ | n <;>
    rcases b with _ | ⟨_ | ⟨start', stop'⟩, width'⟩ | ⟨start', stop'⟩ | n' <;>
    simp [Atom.namedWords, repr_ne_through, hthrough, hpreposition, hpreposition.symm] at h
  case wildcard.wildcard => rfl
  case value.value => rw [(valueName_inj ha hb).1 h]
  case range.range =>
    obtain ⟨hstart, hstop⟩ := h
    rw [(valueName_inj ha.1 hb.1).1 hstart, (valueName_inj ha.2.1 hb.2.1).1 hstop]
  case step.none.step.none => rw [h.1]
  case step.some.step.some =>
    obtain ⟨rfl, -, hstart, hstop⟩ := h
    rw [(valueName_inj ha.1 hb.1).1 hstart, (valueName_inj ha.2.1 hb.2.1).1 hstop]

theorem said_inj {f : Field} (ha : a.WellFormed f) (hb : b.WellFormed f)
    (h : a.said f = b.said f) : a = b := by
  cases f with
  | minute => exact minuteWords_inj h
  | hour => exact hourWords_inj ha hb h
  | dayOfMonth => exact dayOfMonthWords_inj h
  | month | dayOfWeek => exact namedWords_inj ha hb (by decide) h

end Injective

theorem not_mem_label {f : Field} {a : Atom} (h : a.WellFormed f) {c : Char} (hc : c ∈ [',', ':']) :
    c ∉ (a.label f).toList := by
  have hmark : c ∈ labelMarks := by
    rcases List.mem_pair.1 hc with rfl | rfl <;> decide
  rw [mem_label_iff h hmark]
  rcases List.mem_pair.1 hc with rfl | rfl <;> rcases a with _ | ⟨_ | _, _⟩ | _ | _ <;>
    simp [Atom.marks]

theorem pieces_one (f : Field) (a : Atom) : (Entry.one a).pieces f =
    if a.said f = [] then [] else [" ".intercalate (a.said f)] :=
  rfl

theorem wordsOf_pieces_one {f : Field} {a : Atom} (h : a.WellFormed f) :
    ((Entry.one a).pieces f).flatMap wordsOf = a.said f := by
  have hwords : wordsOf (" ".intercalate (a.said f)) = a.said f :=
    wordsOf_intercalate fun w hw => (isPlain_of_mem_said h w hw).isWord
  rw [pieces_one]
  split
  · rename_i hnil
    rw [hnil, List.flatMap_nil]
  · rw [List.flatMap_singleton, hwords]

theorem not_mem_pieces {f : Field} {e : Entry} (h : e.WellFormed f) {c : Char}
    (hc : c ∈ [',', ':']) : ∀ p ∈ e.pieces f, c ∉ p.toList := by
  cases e with
  | one a =>
    have ha : a.WellFormed f := h.1 a (List.mem_singleton_self a)
    have hwords := not_mem_words (isPlain_of_mem_said ha) hc
    intro p hp
    rw [pieces_one] at hp
    split at hp
    · exact absurd hp List.not_mem_nil
    · rwa [List.mem_singleton.1 hp]
  | list items =>
    have hfront : c ∉ (f.front ++ " ").toList := by
      rcases List.mem_pair.1 hc with rfl | rfl <;> cases f <;> decide
    have hback : c ∉ f.back.toList := by
      rcases List.mem_pair.1 hc with rfl | rfl <;> cases f <;> decide
    apply not_mem_enclosed hfront hback
    rw [List.forall_mem_map]
    exact fun a ha => not_mem_label (h.1 a ha) hc

theorem length_pieces_one_le (f : Field) (a : Atom) : ((Entry.one a).pieces f).length ≤ 1 := by
  rw [pieces_one]
  split <;> simp

theorem length_pieces_list (f : Field) (items : List Atom) :
    ((Entry.list items).pieces f).length = items.length := by
  rw [Entry.pieces, length_enclosed, List.length_map]

/-- An entry is told by its pieces. -/
theorem entry_pieces_inj {f : Field} {e e' : Entry} (he : e.WellFormed f) (he' : e'.WellFormed f)
    (h : e.pieces f = e'.pieces f) : e = e' := by
  cases e with
  | one a =>
    have ha : a.WellFormed f := he.1 a (List.mem_singleton_self a)
    cases e' with
    | one b =>
      have hb : b.WellFormed f := he'.1 b (List.mem_singleton_self b)
      have hsaid := wordsOf_pieces_one ha
      rw [h, wordsOf_pieces_one hb] at hsaid
      rw [said_inj ha hb hsaid.symm]
    | list items =>
      -- a list has too many pieces
      have hone := length_pieces_one_le f a
      have htwo := he'.2 items rfl
      rw [h, length_pieces_list] at hone
      omega
  | list items =>
    cases e' with
    | one b =>
      have hone := length_pieces_one_le f b
      have htwo := he.2 items rfl
      rw [← h, length_pieces_list] at hone
      omega
    | list items' =>
      have hcomma {items : List Atom} (h : (Entry.list items).WellFormed f) :
          ∀ p ∈ items.map (·.label f), ',' ∉ p.toList := by
        rw [List.forall_mem_map]
        exact fun a ha => not_mem_label (h.1 a ha) (by decide)
      -- labels have no commas in them, so the enumeration gives them back
      have hlabels := enclosed_inj (hcomma he) (hcomma he') h
      rw [eq_of_map_eq_map hlabels fun a ha b hb => label_inj (he.1 a ha) (he'.1 b hb)]

end Workflow.Schedule
