import Workflow.Proofs.Schedule.RoundTrip
import Workflow.Proofs.Schedule.Topics

/-! The description that is put together from the fields of a schedule, as an enumeration of one
segment for each field. It gives the schedule back. -/
namespace Workflow.Schedule

open Text Time

theorem head_toString_append (n : Nat) (s : List Char) :
    ∃ c, ((toString n).toList ++ s).head? = some c ∧ Number.isDigit c = true := by
  obtain ⟨c, rest, hcons⟩ := List.exists_cons_of_ne_nil (toString_ne_nil n)
  refine ⟨c, ?_, isDigit_of_mem_toString (hcons ▸ List.mem_cons_self)⟩
  rw [hcons, List.cons_append, List.head?_cons]

theorem exists_valueName {f : Field} (hmonth : f ≠ .month) (hday : f ≠ .dayOfWeek) (n : Nat) :
    ∃ (m : Nat) (s : List Char), (f.valueName n).toList = (toString m).toList ++ s := by
  cases f with
  | month => exact absurd rfl hmonth
  | dayOfWeek => exact absurd rfl hday
  | minute | dayOfMonth => exact ⟨n, [], (List.append_nil _).symm⟩
  | hour => exact ⟨_, _, toList_hourLabel n⟩

/-- Labels without names begin with a digit or a star. -/
theorem exists_label {f : Field} (hmonth : f ≠ .month) (hday : f ≠ .dayOfWeek) (a : Atom) :
    ∃ c, (a.label f).toList.head? = some c ∧ (Number.isDigit c = true ∨ c = '*') := by
  have hname (n : Nat) (s : List Char) : ∃ c, ((f.valueName n).toList ++ s).head? = some c ∧
      (Number.isDigit c = true ∨ c = '*') := by
    obtain ⟨m, t, hsplit⟩ := exists_valueName hmonth hday n
    obtain ⟨c, hhead, hdigit⟩ := head_toString_append m (t ++ s)
    refine ⟨c, ?_, Or.inl hdigit⟩
    rwa [hsplit, List.append_assoc]
  cases a with
  | wildcard => exact ⟨'*', by simp [Atom.label], Or.inr rfl⟩
  | value n =>
    have hlabel : ((Atom.value n).label f).toList = (f.valueName n).toList ++ [] :=
      (List.append_nil _).symm
    rw [hlabel]
    exact hname n []
  | range start stop =>
    rw [toList_label_range]
    exact hname start _
  | step ends width =>
    cases ends with
    | none =>
      rw [toList_label_step]
      exact ⟨'*', rfl, Or.inr rfl⟩
    | some ends =>
      rw [toList_label_step_within, List.append_assoc]
      exact hname _ _

theorem exists_wordsOf_of_head {s : String} {c : Char} (hs : s.toList.head? = some c)
    (hc : Number.isDigit c = true ∨ c = '*') (rest : String) :
    ∃ w ws, wordsOf (s ++ rest) = w :: ws ∧ topic? (w :: ws) = none := by
  have hblank : isBlank c = false := by
    rcases hc with hdigit | rfl
    · exact not_isBlank_of_isDigit hdigit
    · decide
  have hhead : (s ++ rest).toList.head? = some c := by
    rw [String.toList_append, List.head?_append, hs]
    rfl
  obtain ⟨w, ws, hwords, hw⟩ := exists_wordsOf_cons hhead hblank
  exact ⟨w, ws, hwords, topic?_eq_none hw hc ws⟩

/-- Labels with names are words. -/
theorem isWord_label {f : Field} (hf : f ≠ .hour) {a : Atom} (h : a.WellFormed f) :
    IsWord (a.label f).toList := by
  have hname {n : Nat} (hn : f.Admits n) : IsWord (f.valueName n).toList :=
    (isPlain_valueName hf hn).isWord
  have hwidth (n : Nat) : IsWord ('/' :: (toString n).toList) :=
    (isPlain_toString n).isWord.cons rfl
  cases a with
  | wildcard =>
    have hstar : IsWord ['*'] := ⟨List.cons_ne_nil _ _, List.forall_mem_singleton.2 rfl⟩
    simpa [Atom.label] using hstar
  | value n => exact hname h
  | range start stop =>
    rw [toList_label_range]
    exact (hname h.1).append ((hname h.2.1).cons rfl)
  | step ends width =>
    cases ends with
    | none =>
      rw [toList_label_step]
      exact (hwidth width).cons rfl
    | some ends =>
      rw [toList_label_step_within]
      exact ((hname h.1).append ((hname h.2.1).cons rfl)).append (hwidth width)

/-- The words of a label, with what may stand behind it, go on with a field. -/
theorem exists_wordsOf_label {f : Field} {a : Atom} (h : a.WellFormed f) {b : String}
    (hb : b ∈ ["", f.back]) :
    ∃ w ws, wordsOf (a.label f ++ b) = w :: ws ∧ topic? (w :: ws) = none := by
  -- a name is one word and has nothing behind it; other labels begin with a mark of their own
  by_cases hnamed : f = .month ∨ f = .dayOfWeek
  · have hback : b = "" := by
      rcases hnamed with rfl | rfl <;> simpa [Field.back] using hb
    have hf : f ≠ .hour := by
      rcases hnamed with rfl | rfl <;> decide
    rw [hback, String.append_empty, wordsOf_singleton (isWord_label hf h)]
    exact ⟨_, [], rfl, rfl⟩
  · obtain ⟨hmonth, hday⟩ := not_or.1 hnamed
    obtain ⟨c, hhead, hc⟩ := exists_label hmonth hday a
    exact exists_wordsOf_of_head hhead hc b

/-- An enumeration whose front tells the field. -/
theorem isSegment_enclosed {f : Field} {front back : String} {pieces : List String}
    (hfront : ∀ w ws, topic? (wordsOf front ++ w :: ws) = some f)
    (hpieces : ∀ p ∈ pieces, ∀ b ∈ ["", back], ∃ w ws, wordsOf (p ++ b) = w :: ws ∧
      topic? (w :: ws) = none) : IsSegment f (enclosed (front ++ " ") back pieces) := by
  cases pieces with
  | nil => exact .nil
  | cons piece rest =>
    obtain ⟨others, b, hb, hcons, -, hothers⟩ := enclosed_cons (front ++ " ") back piece rest
    rw [hcons]
    -- the front belongs to the first piece, and the back to the last one
    apply IsSegment.cons
    · obtain ⟨w, ws, hwords, -⟩ := hpieces piece List.mem_cons_self b hb
      rw [heading?, String.append_assoc, wordsOf_append_blank, hwords, hfront]
    · intro p hp
      obtain ⟨q, hq, b, hb, rfl⟩ := hothers p hp
      obtain ⟨w, ws, hwords, hnone⟩ := hpieces q (List.mem_cons_of_mem _ hq) b hb
      rw [heading?, hwords, hnone]

theorem isSegment_entry {f : Field} {e : Entry} (h : e.WellFormed f) : IsSegment f (e.pieces f) := by
  cases e with
  | one a =>
    have ha : a.WellFormed f := h.1 a (List.mem_singleton_self a)
    rw [pieces_one]
    split
    · exact .nil
    · rename_i hsaid
      apply IsSegment.cons
      · rw [heading?, wordsOf_intercalate fun w hw => (isPlain_of_mem_said ha w hw).isWord]
        exact topic?_said ha hsaid
      · exact List.forall_mem_nil _
  | list items =>
    apply isSegment_enclosed
    · intro w ws
      cases f <;> rfl
    · intro p hp b hb
      obtain ⟨a, ha, rfl⟩ := List.mem_map.1 hp
      exact exists_wordsOf_label (h.1 a ha) hb

theorem comma_not_mem_clockTime (hour minute : Nat) : ',' ∉ (clockTime hour minute).toList := by
  have hhour : ',' ∉ (toString (hourOfTwelve hour)).toList := not_mem_toString rfl _
  have hminute : ',' ∉ (padded 2 minute).toList := (digits_padded 2 minute).not_mem rfl
  have hhalf : ',' ∉ (halfOfDay hour).toList := fun hmem =>
    absurd rfl ((isPlain_halfOfDay hour).2 ',' hmem).2.1
  rw [toList_clockTime, List.mem_append, List.mem_cons, List.mem_append, List.mem_cons]
  simp only [hhour, hminute, hhalf, Char.reduceEq, or_self, not_false_eq_true]

theorem isSegment_clock (minute : Nat) (hours : List Nat) :
    IsSegment .minute (enclosed "At " "" (hours.map (clockTime · minute))) := by
  have hfront : ∀ w ws, topic? (wordsOf "At" ++ w :: ws) = some .minute := fun _ _ => rfl
  apply isSegment_enclosed hfront
  intro p hp b _
  obtain ⟨hour, -, rfl⟩ := List.mem_map.1 hp
  obtain ⟨c, hhead, hdigit⟩ := head_toString_append (hourOfTwelve hour)
    (':' :: ((padded 2 minute).toList ++ ' ' :: (halfOfDay hour).toList))
  rw [← toList_clockTime] at hhead
  exact exists_wordsOf_of_head hhead (Or.inl hdigit) b

namespace Cron

/-- The minute and the hours of the times of day, if the description gives these. -/
def clock? (c : Cron) : Option (Nat × List Nat) :=
  match c.minute, c.hour.values? with
  | .one (.value m), some hours => some (m, hours)
  | _, _ => none

/-- The pieces for a field. Times of day stand for the minute and the hour. -/
def segment (c : Cron) (f : Field) : List String :=
  match c.clock?, f with
  | some (m, hours), .minute => enclosed "At " "" (hours.map (clockTime · m))
  | some _, .hour => []
  | _, f => (c.entry f).pieces f

/-- All pieces of the description. -/
def pieces (c : Cron) : List String :=
  Field.all.flatMap c.segment

theorem clock?_eq_some_iff {c : Cron} {m : Nat} {hours : List Nat} :
    c.clock? = some (m, hours) ↔ c.minute = .one (.value m) ∧ c.hour.values? = some hours := by
  unfold clock?
  split
  · rename_i m' hours' hminute hhours
    rw [hminute, hhours]
    simp
  · rename_i hother
    simp only [reduceCtorEq, false_iff]
    rintro ⟨hminute, hhours⟩
    exact hother m hours hminute hhours

theorem timePhrase_of_clock {c : Cron} {m : Nat} {hours : List Nat}
    (h : c.clock? = some (m, hours)) :
    timePhrase c.minute c.hour = "At " ++ ", ".intercalate (hours.map (clockTime · m)) := by
  obtain ⟨hminute, hhours⟩ := clock?_eq_some_iff.1 h
  unfold timePhrase
  rw [hminute, hhours]

theorem timePhrase_of_no_clock {c : Cron} (h : c.clock? = none) : timePhrase c.minute c.hour =
    (hourPhrase? c.hour).elim (minutePhrase c.minute) (minutePhrase c.minute ++ ", " ++ ·) := by
  unfold timePhrase
  split
  · rename_i m hours hminute hhours
    rw [clock?_eq_some_iff.2 ⟨hminute, hhours⟩] at h
    exact absurd h (by simp)
  · cases hourPhrase? c.hour with
    | none => rfl
    | some hours => rfl

end Cron

/-- Enumerations of enumerations, the empty ones left out. -/
theorem intercalate_joined {ps : List String} (h : ps ≠ []) (rest : List (List String)) :
    ", ".intercalate (", ".intercalate ps :: (rest.map joined?).filterMap id) =
      ", ".intercalate (ps ++ rest.flatten) := by
  induction rest generalizing ps with
  | nil => simp
  | cons qs rest ih =>
    by_cases hqs : qs = []
    · subst hqs
      exact ih h
    · have hjoined : joined? qs = some (", ".intercalate qs) := if_neg hqs
      have hne : qs ++ rest.flatten ≠ [] := List.append_ne_nil_of_left_ne_nil hqs _
      rw [List.map_cons, hjoined]
      show ", ".intercalate (", ".intercalate ps :: ", ".intercalate qs ::
        (rest.map joined?).filterMap id) = _
      rw [String.intercalate_cons_cons, ih hqs, List.flatten_cons,
        String.intercalate_append_of_ne_nil h hne]

theorem values?_eq_some_iff {e : Entry} {hours : List Nat} :
    e.values? = some hours ↔ e.atoms = hours.map .value := by
  unfold Entry.values?
  induction e.atoms generalizing hours with
  | nil => simp [eq_comm]
  | cons a atoms ih =>
    rw [List.mapM_cons]
    cases a <;> cases hours <;>
      simp [Atom.value?, Option.bind_eq_some_iff, ih, and_comm]

theorem atoms_ne_nil {f : Field} {e : Entry} (h : e.WellFormed f) : e.atoms ≠ [] := by
  cases e with
  | one a => exact List.cons_ne_nil _ _
  | list items =>
    rintro (rfl : items = [])
    exact absurd (h.2 [] rfl) (by decide)

/-- A list of one set is no entry. -/
theorem atoms_inj {f : Field} {e e' : Entry} (he : e.WellFormed f) (he' : e'.WellFormed f)
    (h : e.atoms = e'.atoms) : e = e' := by
  cases e with
  | one a =>
    cases e' with
    | one b => rw [(List.cons.inj h).1]
    | list items =>
      have hlength : 1 = items.length := congrArg List.length h
      have htwo := he'.2 items rfl
      omega
  | list items =>
    cases e' with
    | one b =>
      have hlength : items.length = 1 := congrArg List.length h
      have htwo := he.2 items rfl
      omega
    | list items' => exact congrArg Entry.list h

namespace Cron

section Segment

variable {c : Cron}

theorem segment_minute_of_clock {m : Nat} {hours : List Nat} (h : c.clock? = some (m, hours)) :
    c.segment .minute = enclosed "At " "" (hours.map (clockTime · m)) := by
  unfold segment
  rw [h]

theorem segment_hour_of_clock {m : Nat} {hours : List Nat} (h : c.clock? = some (m, hours)) :
    c.segment .hour = [] := by
  unfold segment
  rw [h]

theorem segment_of_no_clock (h : c.clock? = none) (f : Field) :
    c.segment f = (c.entry f).pieces f := by
  unfold segment
  rw [h]

theorem segment_eq {f : Field} (hminute : f ≠ .minute) (hhour : f ≠ .hour) :
    c.segment f = (c.entry f).pieces f := by
  unfold segment
  split
  · exact absurd rfl hminute
  · exact absurd rfl hhour
  · rfl

variable (hc : c.WellFormed)
include hc

theorem isSegment (f : Field) : IsSegment f (c.segment f) := by
  by_cases hf : f ≠ .minute ∧ f ≠ .hour
  · rw [segment_eq hf.1 hf.2]
    exact isSegment_entry (hc f)
  · cases hclock : c.clock? with
    | none =>
      rw [segment_of_no_clock hclock]
      exact isSegment_entry (hc f)
    | some clock =>
      have hcases : f = .minute ∨ f = .hour := by
        rwa [not_and_or, not_not, not_not] at hf
      rcases hcases with rfl | rfl
      · rw [segment_minute_of_clock hclock]
        exact isSegment_clock _ _
      · rw [segment_hour_of_clock hclock]
        exact .nil

theorem hours_ne_nil {m : Nat} {hours : List Nat} (h : c.clock? = some (m, hours)) : hours ≠ [] := by
  rintro rfl
  exact atoms_ne_nil (hc .hour) (values?_eq_some_iff.1 (clock?_eq_some_iff.1 h).2)

theorem minute_pieces_ne_nil : c.minute.pieces .minute ≠ [] := by
  intro hnil
  have hjoined := phrase?_eq (hc .minute)
  have hnone : joined? ((c.entry .minute).pieces .minute) = none := if_pos hnil
  rw [hnone] at hjoined
  exact absurd hjoined (by simp [Entry.phrase?])

theorem segment_minute_ne_nil : c.segment .minute ≠ [] := by
  cases hclock : c.clock? with
  | none =>
    rw [segment_of_no_clock hclock]
    exact minute_pieces_ne_nil hc
  | some clock =>
    have hne := hours_ne_nil hc hclock
    rw [segment_minute_of_clock hclock, ne_eq, ← List.length_eq_zero_iff, length_enclosed,
      List.length_map, List.length_eq_zero_iff]
    exact hne

theorem timePhrase_eq : timePhrase c.minute c.hour =
    ", ".intercalate (c.segment .minute ++ c.segment .hour) := by
  cases hclock : c.clock? with
  | none =>
    have hne := minute_pieces_ne_nil hc
    have hminute : minutePhrase c.minute = ", ".intercalate (c.minute.pieces .minute) := by
      have hphrase : some (minutePhrase c.minute) = joined? (c.minute.pieces .minute) :=
        phrase?_eq (hc .minute)
      rw [joined?, if_neg hne] at hphrase
      exact Option.some.inj hphrase
    have hhour : hourPhrase? c.hour = joined? (c.hour.pieces .hour) := phrase?_eq (hc .hour)
    rw [timePhrase_of_no_clock hclock, segment_of_no_clock hclock, segment_of_no_clock hclock,
      hminute, hhour]
    show _ = ", ".intercalate (c.minute.pieces .minute ++ c.hour.pieces .hour)
    unfold joined?
    by_cases hnil : c.hour.pieces .hour = []
    · rw [if_pos hnil, hnil, List.append_nil]
      rfl
    · rw [if_neg hnil, String.intercalate_append_of_ne_nil hne hnil]
      rfl
  | some clock =>
    have hne : clock.2.map (clockTime · clock.1) ≠ [] := by
      rw [ne_eq, List.map_eq_nil_iff]
      exact hours_ne_nil hc hclock
    rw [timePhrase_of_clock hclock, segment_minute_of_clock hclock, segment_hour_of_clock hclock,
      List.append_nil, intercalate_enclosed hne, String.append_empty]

/-- The description is the enumeration of all segments. -/
theorem phrase_eq : c.phrase = ", ".intercalate c.pieces := by
  have hne : c.segment .minute ++ c.segment .hour ≠ [] :=
    List.append_ne_nil_of_left_ne_nil (segment_minute_ne_nil hc) _
  have hday : dayOfMonthPhrase? c.dayOfMonth = joined? (c.segment .dayOfMonth) := by
    rw [segment_eq (by decide) (by decide)]
    exact phrase?_eq (hc .dayOfMonth)
  have hmonth : monthPhrase? c.month = joined? (c.segment .month) := by
    rw [segment_eq (by decide) (by decide)]
    exact phrase?_eq (hc .month)
  have hweekday : dayOfWeekPhrase? c.dayOfWeek = joined? (c.segment .dayOfWeek) := by
    rw [segment_eq (by decide) (by decide)]
    exact phrase?_eq (hc .dayOfWeek)
  have hall : c.pieces = c.segment .minute ++ c.segment .hour ++
      [c.segment .dayOfMonth, c.segment .month, c.segment .dayOfWeek].flatten := by
    simp [pieces, Field.all]
  unfold phrase
  rw [timePhrase_eq hc, hday, hmonth, hweekday, hall]
  exact intercalate_joined hne [c.segment .dayOfMonth, c.segment .month, c.segment .dayOfWeek]

theorem comma_not_mem_segment (f : Field) : ∀ p ∈ c.segment f, ',' ∉ p.toList := by
  have hentry : ∀ p ∈ (c.entry f).pieces f, ',' ∉ p.toList := not_mem_pieces (hc f) (by decide)
  unfold segment
  split
  · apply not_mem_enclosed (by decide) (by decide)
    rw [List.forall_mem_map]
    exact fun hour _ => comma_not_mem_clockTime hour _
  · exact List.forall_mem_nil _
  · exact hentry

theorem comma_not_mem_pieces : ∀ p ∈ c.pieces, ',' ∉ p.toList := by
  intro p hp
  obtain ⟨f, -, hp⟩ := List.mem_flatMap.1 hp
  exact comma_not_mem_segment hc f p hp

/-- The first piece tells the minute. -/
theorem pieces_cons : ∃ p ps, c.pieces = p :: ps ∧ heading? p = some .minute := by
  have hsegment := isSegment hc .minute
  have hne := segment_minute_ne_nil hc
  cases hminute : c.segment .minute with
  | nil => exact absurd hminute hne
  | cons p ps =>
    rw [hminute] at hsegment
    refine ⟨p, ps ++ [.hour, .dayOfMonth, .month, .dayOfWeek].flatMap c.segment, ?_, ?_⟩
    · unfold pieces Field.all
      rw [List.flatMap_cons, hminute, List.cons_append]
    · cases hsegment with
      | cons hhead _ => exact hhead

theorem pieces_ne_nil : c.pieces ≠ [] := by
  obtain ⟨p, ps, hcons, -⟩ := pieces_cons hc
  rw [hcons]
  exact List.cons_ne_nil _ _

/-- A text without commas that does not begin with the minute describes nothing field by field. -/
theorem phrase_ne {s : String} (hcomma : ',' ∉ s.toList) (hs : heading? s ≠ some .minute) :
    c.phrase ≠ s := by
  intro h
  have hsingle : ", ".intercalate c.pieces = ", ".intercalate [s] := by
    rw [← phrase_eq hc, h, String.intercalate_singleton]
  -- the text would be the only piece, which tells the minute
  have hpieces := pieces_inj (pieces_ne_nil hc) (List.cons_ne_nil _ _) (comma_not_mem_pieces hc)
    (by simpa using hcomma) hsingle
  obtain ⟨p, ps, hcons, hhead⟩ := pieces_cons hc
  rw [hpieces] at hcons
  obtain ⟨rfl, -⟩ := List.cons.inj hcons
  exact hs hhead

end Segment

section Injective

variable {c c' : Cron} (hc : c.WellFormed) (hc' : c'.WellFormed)

include hc in
theorem admits_of_clock {m : Nat} {hours : List Nat} (h : c.clock? = some (m, hours)) :
    ∀ hour ∈ hours, Field.hour.Admits hour := by
  have hatoms : c.hour.atoms = hours.map .value :=
    values?_eq_some_iff.1 (clock?_eq_some_iff.1 h).2
  intro hour hmem
  have hatom : Atom.value hour ∈ c.hour.atoms := hatoms ▸ List.mem_map_of_mem hmem
  exact (hc .hour).1 _ hatom

include hc hc'

/-- The times of day give the minute and the hours. -/
theorem clock_inj {m m' : Nat} {hours hours' : List Nat} (hclock : c.clock? = some (m, hours))
    (hclock' : c'.clock? = some (m', hours')) (h : c.segment .minute = c'.segment .minute) :
    c.clock? = c'.clock? := by
  have hcomma (m : Nat) (hours : List Nat) : ∀ p ∈ hours.map (clockTime · m), ',' ∉ p.toList := by
    rw [List.forall_mem_map]
    exact fun hour _ => comma_not_mem_clockTime hour m
  rw [segment_minute_of_clock hclock, segment_minute_of_clock hclock'] at h
  have htimes := enclosed_inj (hcomma m hours) (hcomma m' hours') h
  have hsame : ∀ hour ∈ hours, ∀ hour' ∈ hours', clockTime hour m = clockTime hour' m' →
      hour = hour' ∧ m = m' := fun hour hmem hour' hmem' =>
    clockTime_inj (admits_of_clock hc hclock hour hmem) (admits_of_clock hc' hclock' hour' hmem')
  -- hours decide the lists, and the first time of day decides the minute
  have hhours : hours = hours' := eq_of_map_eq_map htimes fun hour hmem hour' hmem' htime =>
    (hsame hour hmem hour' hmem' htime).1
  subst hhours
  obtain ⟨hour, rest, rfl⟩ := List.exists_cons_of_ne_nil (hours_ne_nil hc hclock)
  have hfirst := (List.cons.inj htimes).1
  have hm : m = m' := (hsame hour List.mem_cons_self hour List.mem_cons_self hfirst).2
  rw [hclock, hclock', hm]

/-- A time of day has a colon in it, and nothing else that is said of minutes has one. -/
theorem segment_ne_of_clock {m : Nat} {hours : List Nat} (hclock : c.clock? = some (m, hours))
    (hclock' : c'.clock? = none) : c.segment .minute ≠ c'.segment .minute := by
  intro h
  obtain ⟨hour, rest, rfl⟩ := List.exists_cons_of_ne_nil (hours_ne_nil hc hclock)
  obtain ⟨others, b, -, hcons, -⟩ :=
    enclosed_cons "At " "" (clockTime hour m) (rest.map (clockTime · m))
  have hcolon : ':' ∈ ("At " ++ clockTime hour m ++ b).toList := by
    simp [toList_clockTime]
  have hpieces : ∀ p ∈ c.segment .minute, ':' ∉ p.toList := by
    rw [h, segment_of_no_clock hclock']
    exact not_mem_pieces (hc' .minute) (by decide)
  rw [segment_minute_of_clock hclock, List.map_cons, hcons] at hpieces
  exact hpieces _ List.mem_cons_self hcolon

theorem time_inj (hminute : c.segment .minute = c'.segment .minute)
    (hhour : c.segment .hour = c'.segment .hour) : c.minute = c'.minute ∧ c.hour = c'.hour := by
  cases hclock : c.clock? with
  | none =>
    cases hclock' : c'.clock? with
    | none =>
      rw [segment_of_no_clock hclock, segment_of_no_clock hclock'] at hminute hhour
      exact ⟨entry_pieces_inj (hc .minute) (hc' .minute) hminute,
        entry_pieces_inj (hc .hour) (hc' .hour) hhour⟩
    | some clock' => exact absurd hminute.symm (segment_ne_of_clock hc' hc hclock' hclock)
  | some clock =>
    cases hclock' : c'.clock? with
    | none => exact absurd hminute (segment_ne_of_clock hc hc' hclock hclock')
    | some clock' =>
      have hsame := clock_inj hc hc' hclock hclock' hminute
      rw [hclock, hclock'] at hsame
      obtain rfl := Option.some.inj hsame
      obtain ⟨hm, hhours⟩ := clock?_eq_some_iff.1 hclock
      obtain ⟨hm', hhours'⟩ := clock?_eq_some_iff.1 hclock'
      have hatoms : c.hour.atoms = c'.hour.atoms := by
        rw [values?_eq_some_iff.1 hhours, values?_eq_some_iff.1 hhours']
      exact ⟨hm.trans hm'.symm, atoms_inj (hc .hour) (hc' .hour) hatoms⟩

/-- Schedules with the same description are the same. -/
theorem phrase_inj (h : c.phrase = c'.phrase) : c = c' := by
  rw [phrase_eq hc, phrase_eq hc'] at h
  have hpieces : c.pieces = c'.pieces := pieces_inj (pieces_ne_nil hc) (pieces_ne_nil hc')
    (comma_not_mem_pieces hc) (comma_not_mem_pieces hc') h
  -- the description is cut into its pieces, these into segments, and each segment is an entry
  have hsegment (f : Field) : c.segment f = c'.segment f :=
    segments_inj (isSegment hc) (isSegment hc') (by decide) hpieces f f.mem_all
  have hentry {f : Field} (hminute : f ≠ .minute) (hhour : f ≠ .hour) : c.entry f = c'.entry f := by
    have hsame := hsegment f
    rw [segment_eq hminute hhour, segment_eq hminute hhour] at hsame
    exact entry_pieces_inj (hc f) (hc' f) hsame
  obtain ⟨hminute, hhour⟩ := time_inj hc hc' (hsegment .minute) (hsegment .hour)
  have hday : c.dayOfMonth = c'.dayOfMonth := hentry (f := .dayOfMonth) (by decide) (by decide)
  have hmonth : c.month = c'.month := hentry (f := .month) (by decide) (by decide)
  have hweekday : c.dayOfWeek = c'.dayOfWeek := hentry (f := .dayOfWeek) (by decide) (by decide)
  cases c
  cases c'
  simp_all only

end Injective

end Cron

end Workflow.Schedule
