import Workflow.Proofs.Schedule.Phrases

/-! Which field a piece of a description is about. The first piece for a field says so in its first
words and the others say nothing of the kind, so that a description falls into the pieces for the
minute, the hour, the day, the month and the day of the week in one way only. -/
namespace Workflow.Schedule

open Text Time

/-- The field that something is counted for, by the words from the unit on. -/
def unitTopic? : List String → Option Field
  | [] => none
  | unit :: rest =>
    if unit = "minute" ∨ unit = "minutes" then some .minute
    else if unit = "hour" ∨ unit = "hours" then some .hour
    else if unit = "month" ∨ unit = "months" then some .month
    else if unit = "day" ∨ unit = "days" then
      if rest.head? = some "of" then some .dayOfWeek else some .dayOfMonth
    else none

/-- The field that words begin to speak of. -/
def topic? : List String → Option Field
  | first :: second :: rest =>
    if first = "At" then some .minute
    else if first = "Every" then if second = "minute" then some .minute else unitTopic? rest
    else if first = "every" then unitTopic? rest
    else if first = "between" ∨ first = "during" then some .hour
    else if first = "on" then some .dayOfMonth
    else if first = "only" then if second = "in" then some .month else some .dayOfWeek
    else if second = "through" ∧ first ∈ monthNames then some .month
    else if second = "through" ∧ first ∈ weekdayNames then some .dayOfWeek
    else none
  | _ => none

/-- The field that a piece begins to speak of; none if it goes on with the one before it. -/
def heading? (piece : String) : Option Field :=
  topic? (wordsOf piece)

/-- All first words that tell a field. -/
def openers : List String :=
  ["At", "Every", "every", "between", "during", "on", "only"] ++ monthNames ++ weekdayNames

section Units

variable (n : Nat) (rest : List String)

theorem unitTopic?_minute : unitTopic? (unitWord n "minute" :: rest) = some .minute := by
  unfold unitWord
  split <;> rfl

theorem unitTopic?_hour : unitTopic? (unitWord n "hour" :: rest) = some .hour := by
  unfold unitWord
  split <;> rfl

theorem unitTopic?_month : unitTopic? (unitWord n "month" :: rest) = some .month := by
  unfold unitWord
  split <;> rfl

theorem unitTopic?_day : unitTopic? (unitWord n "day" :: rest) =
    if rest.head? = some "of" then some .dayOfWeek else some .dayOfMonth := by
  unfold unitWord
  split <;> rfl

end Units

/-- The words of labels and of times of day tell no field. -/
theorem topic?_eq_none {w : String} {c : Char} (hw : w.toList.head? = some c)
    (hc : Number.isDigit c = true ∨ c = '*') (ws : List String) : topic? (w :: ws) = none := by
  have hne : w ∉ openers := by
    have hall : ∀ k ∈ openers, (k.toList.head?.any fun d => Number.isDigit d || d = '*') = false := by
      decide
    intro hmem
    have hfalse := hall w hmem
    rw [hw] at hfalse
    rcases hc with hdigit | rfl
    · simp [hdigit] at hfalse
    · simp at hfalse
  -- none of the tests for a first word succeeds
  simp only [openers, List.mem_append, List.mem_cons, List.not_mem_nil, or_false, not_or] at hne
  obtain ⟨⟨⟨hat, hevery, hevery', hbetween, hduring, hon, honly⟩, hmonth⟩, hday⟩ := hne
  cases ws with
  | nil => rfl
  | cons second rest =>
    simp only [topic?, hat, hevery, hevery', hbetween, hduring, hon, honly, hmonth, hday, if_false,
      or_false, and_false]

theorem topic?_month {name : String} (h : name ∈ monthNames) (rest : List String) :
    topic? (name :: "through" :: rest) = some .month := by
  revert name
  simp [monthNames, topic?]

theorem topic?_dayOfWeek {name : String} (h : name ∈ weekdayNames) (rest : List String) :
    topic? (name :: "through" :: rest) = some .dayOfWeek := by
  revert name
  simp [monthNames, weekdayNames, topic?]

theorem valueName_mem_monthNames {n : Nat} (h : Field.month.Admits n) :
    Field.month.valueName n ∈ monthNames := by
  have hall : ∀ n ≤ 12, 1 ≤ n → Field.month.valueName n ∈ monthNames := by decide
  exact hall n h.2 h.1

theorem valueName_mem_weekdayNames {n : Nat} (h : Field.dayOfWeek.Admits n) :
    Field.dayOfWeek.valueName n ∈ weekdayNames := by
  have hall : ∀ n ≤ 6, Field.dayOfWeek.valueName n ∈ weekdayNames := by decide
  exact hall n h.2

theorem topic?_said {f : Field} {a : Atom} (h : a.WellFormed f) (hsaid : a.said f ≠ []) :
    topic? (a.said f) = some f := by
  -- the words are known up to numbers and names; only a range of names begins with a name
  cases f with
  | minute =>
    rcases a with _ | ⟨_ | ⟨start, stop⟩, width⟩ | ⟨start, stop⟩ | _ | n <;>
      simp [Atom.said, Atom.minuteWords, topic?, unitTopic?_minute]
  | hour =>
    rcases a with _ | ⟨_ | ⟨start, stop⟩, width⟩ | ⟨start, stop⟩ | n
    · exact absurd rfl hsaid
    all_goals simp [Atom.said, Atom.hourWords, topic?, unitTopic?_hour]
  | dayOfMonth =>
    rcases a with _ | ⟨_ | ⟨start, stop⟩, width⟩ | ⟨start, stop⟩ | n
    · exact absurd rfl hsaid
    all_goals simp [Atom.said, Atom.dayOfMonthWords, topic?, unitTopic?_day]
  | month =>
    rcases a with _ | ⟨_ | ⟨start, stop⟩, width⟩ | ⟨start, stop⟩ | n
    case wildcard => exact absurd rfl hsaid
    case range => exact topic?_month (valueName_mem_monthNames h.1) _
    all_goals simp [Atom.said, Atom.namedWords, topic?, unitTopic?_month]
  | dayOfWeek =>
    rcases a with _ | ⟨_ | ⟨start, stop⟩, width⟩ | ⟨start, stop⟩ | n
    case wildcard => exact absurd rfl hsaid
    case range => exact topic?_dayOfWeek (valueName_mem_weekdayNames h.1) _
    all_goals simp [Atom.said, Atom.namedWords, topic?, unitTopic?_day]

/-- The pieces for one field. -/
inductive IsSegment (f : Field) : List String → Prop
  | nil : IsSegment f []
  | cons {p : String} {ps : List String} : heading? p = some f → (∀ q ∈ ps, heading? q = none) →
    IsSegment f (p :: ps)

/-- Pieces that do not go on with the field. -/
def Elsewhere (f : Field) (ps : List String) : Prop :=
  ∀ p ∈ ps.head?, ∃ g, heading? p = some g ∧ g ≠ f

theorem Elsewhere.not_going_on {f : Field} {p : String} {ps : List String} (h : Elsewhere f (p :: ps)) :
    heading? p ≠ none ∧ heading? p ≠ some f := by
  obtain ⟨g, hg, hne⟩ := h p rfl
  rw [hg]
  exact ⟨Option.some_ne_none g, fun hsame => hne (Option.some.inj hsame)⟩

theorem continued_inj {f : Field} {ps qs xs ys : List String} (hp : ∀ p ∈ ps, heading? p = none)
    (hq : ∀ q ∈ qs, heading? q = none) (hx : Elsewhere f xs) (hy : Elsewhere f ys)
    (h : ps ++ xs = qs ++ ys) : ps = qs ∧ xs = ys := by
  -- where one of both ends first, the rest behind it would begin with a piece that goes on
  induction ps generalizing qs with
  | nil =>
    cases qs with
    | nil => exact ⟨rfl, h⟩
    | cons q qs =>
      rw [List.nil_append, List.cons_append] at h
      subst h
      exact absurd (hq q List.mem_cons_self) hx.not_going_on.1
  | cons p ps ih =>
    cases qs with
    | nil =>
      rw [List.nil_append, List.cons_append] at h
      subst h
      exact absurd (hp p List.mem_cons_self) hy.not_going_on.1
    | cons q qs =>
      obtain ⟨rfl, htail⟩ := List.cons.inj h
      obtain ⟨rfl, hrest⟩ := ih (fun p hmem => hp p (List.mem_cons_of_mem _ hmem))
        (fun q hmem => hq q (List.mem_cons_of_mem _ hmem)) htail
      exact ⟨rfl, hrest⟩

theorem segment_append_inj {f : Field} {ps qs xs ys : List String} (hp : IsSegment f ps)
    (hq : IsSegment f qs) (hx : Elsewhere f xs) (hy : Elsewhere f ys) (h : ps ++ xs = qs ++ ys) :
    ps = qs ∧ xs = ys := by
  cases hp with
  | nil =>
    cases hq with
    | nil => exact ⟨rfl, h⟩
    | cons hhead _ =>
      rw [List.nil_append, List.cons_append] at h
      subst h
      exact absurd hhead hx.not_going_on.2
  | cons hhead htail =>
    cases hq with
    | nil =>
      rw [List.nil_append, List.cons_append] at h
      subst h
      exact absurd hhead hy.not_going_on.2
    | cons _ htail' =>
      obtain ⟨rfl, hcontinued⟩ := List.cons.inj h
      obtain ⟨rfl, hrest⟩ := continued_inj htail htail' hx hy hcontinued
      exact ⟨rfl, hrest⟩

section Segments

variable {A B : Field → List String} (hA : ∀ f, IsSegment f (A f)) (hB : ∀ f, IsSegment f (B f))

include hA in
theorem heading_flatMap {fields : List Field} :
    ∀ p ∈ (fields.flatMap A).head?, ∃ g ∈ fields, heading? p = some g := by
  induction fields with
  | nil => exact fun p hp => absurd hp (Option.not_mem_none p)
  | cons f fields ih =>
    intro p hp
    rw [List.flatMap_cons] at hp
    have hf := hA f
    revert hf hp
    cases A f with
    | nil =>
      intro hp _
      obtain ⟨g, hg, hhead⟩ := ih p hp
      exact ⟨g, List.mem_cons_of_mem _ hg, hhead⟩
    | cons q qs =>
      intro hp hf
      obtain rfl : q = p := Option.some.inj hp
      cases hf with
      | cons hhead _ => exact ⟨f, List.mem_cons_self, hhead⟩

include hA hB

/-- Segments for different fields can be told from what they make together. -/
theorem segments_inj {fields : List Field} (hnodup : fields.Nodup)
    (h : fields.flatMap A = fields.flatMap B) : ∀ f ∈ fields, A f = B f := by
  induction fields with
  | nil => exact List.forall_mem_nil _
  | cons f fields ih =>
    obtain ⟨hf, hnodup⟩ := List.nodup_cons.1 hnodup
    -- what comes behind the first field is about fields that are not the first one
    have helsewhere {C : Field → List String} (hC : ∀ f, IsSegment f (C f)) :
        Elsewhere f (fields.flatMap C) := by
      intro p hp
      obtain ⟨g, hg, hhead⟩ := heading_flatMap hC p hp
      exact ⟨g, hhead, ne_of_mem_of_not_mem hg hf⟩
    rw [List.flatMap_cons, List.flatMap_cons] at h
    obtain ⟨hfirst, hrest⟩ := segment_append_inj (hA f) (hB f) (helsewhere hA) (helsewhere hB) h
    exact List.forall_mem_cons.2 ⟨hfirst, ih hnodup hrest⟩

end Segments

end Workflow.Schedule
