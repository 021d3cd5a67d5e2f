import Workflow.Proofs.Text.Decimal
import Workflow.Proofs.Text.Pieces
import Workflow.Schedule.Description

/-! The names of values, the labels of sets and the times of day: each stands for one thing only. -/
namespace Workflow.Schedule

open Text Time

theorem halfOfDay_inj {m n : Nat} (h : halfOfDay m = halfOfDay n) : m < 12 ↔ n < 12 := by
  unfold halfOfDay at h
  by_cases hm : m < 12
  · by_cases hn : n < 12
    · exact iff_of_true hm hn
    · rw [if_pos hm, if_neg hn] at h
      exact absurd h (by decide)
  · by_cases hn : n < 12
    · rw [if_neg hm, if_pos hn] at h
      exact absurd h (by decide)
    · exact iff_of_false hm hn

/-- The hour on the clock and the half of the day give the hour. -/
theorem hour_inj {m n : Nat} (hm : Field.hour.Admits m) (hn : Field.hour.Admits n)
    (hhour : hourOfTwelve m = hourOfTwelve n) (hhalf : halfOfDay m = halfOfDay n) : m = n := by
  -- in each half of the day an hour of the clock comes once
  have hsame := halfOfDay_inj hhalf
  have hm' : m ≤ 23 := hm.2
  have hn' : n ≤ 23 := hn.2
  unfold hourOfTwelve at hhour
  split at hhour <;> split at hhour <;> omega

theorem toList_hourLabel (hour : Nat) : (hourLabel hour).toList =
    (toString (hourOfTwelve hour)).toList ++ ' ' :: (halfOfDay hour).toList := by
  unfold hourLabel
  rw [String.toList_append, String.toList_append, List.append_assoc]
  rfl

theorem toList_clockTime (hour minute : Nat) : (clockTime hour minute).toList =
    (toString (hourOfTwelve hour)).toList ++ ':' ::
      ((padded 2 minute).toList ++ ' ' :: (halfOfDay hour).toList) := by
  simp [clockTime]

theorem hourLabel_inj {m n : Nat} (hm : Field.hour.Admits m) (hn : Field.hour.Admits n)
    (h : hourLabel m = hourLabel n) : m = n := by
  have hchars := congrArg String.toList h
  rw [toList_hourLabel, toList_hourLabel] at hchars
  obtain ⟨hhour, hhalf⟩ := append_cons_inj (not_mem_toString rfl _) (not_mem_toString rfl _) hchars
  exact hour_inj hm hn (toString_inj.1 (String.toList_inj.1 hhour)) (String.toList_inj.1 hhalf)

/-- A time of day is cut at its colon and at its blank. -/
theorem clockTime_inj {hour hour' minute minute' : Nat} (hhour : Field.hour.Admits hour)
    (hhour' : Field.hour.Admits hour') (h : clockTime hour minute = clockTime hour' minute') :
    hour = hour' ∧ minute = minute' := by
  have hchars := congrArg String.toList h
  rw [toList_clockTime, toList_clockTime] at hchars
  obtain ⟨htwelve, hrest⟩ :=
    append_cons_inj (not_mem_toString rfl _) (not_mem_toString rfl _) hchars
  obtain ⟨hminute, hhalf⟩ := append_cons_inj ((digits_padded 2 minute).not_mem rfl)
    ((digits_padded 2 minute').not_mem rfl) hrest
  have hsame : hour = hour' := hour_inj hhour hhour' (toString_inj.1 (String.toList_inj.1 htwelve))
    (String.toList_inj.1 hhalf)
  exact ⟨hsame, padded_inj (String.toList_inj.1 hminute)⟩

/-- The characters that separate something in labels or between them. -/
def labelMarks : List Char :=
  [',', '-', '/', '*', ':']

theorem isDigit_of_mem_marks {c : Char} (h : c ∈ labelMarks) : Number.isDigit c = false := by
  simp only [labelMarks, List.mem_cons, List.not_mem_nil, or_false] at h
  rcases h with rfl | rfl | rfl | rfl | rfl <;> rfl

theorem not_mem_of_all {s : List Char} (h : s.all (!labelMarks.contains ·) = true) {c : Char}
    (hc : c ∈ labelMarks) : c ∉ s := by
  intro hmem
  have hnot := List.all_eq_true.1 h c hmem
  simp [hc] at hnot

theorem not_mem_valueName {f : Field} {n : Nat} (h : f.Admits n) {c : Char} (hc : c ∈ labelMarks) :
    c ∉ (f.valueName n).toList := by
  have hdigits := not_mem_toString (isDigit_of_mem_marks hc) n
  cases f with
  | minute => exact hdigits
  | dayOfMonth => exact hdigits
  | hour =>
    have hall : ∀ n ≤ 23, (hourLabel n).toList.all (!labelMarks.contains ·) = true := by decide
    exact not_mem_of_all (hall n h.2) hc
  | month =>
    have hall : ∀ n ≤ 12, (Field.month.valueName n).toList.all (!labelMarks.contains ·) = true := by
      decide
    exact not_mem_of_all (hall n h.2) hc
  | dayOfWeek =>
    have hall : ∀ n ≤ 6, (Field.dayOfWeek.valueName n).toList.all (!labelMarks.contains ·) =
        true := by decide
    exact not_mem_of_all (hall n h.2) hc

theorem valueName_inj {f : Field} {m n : Nat} (hm : f.Admits m) (hn : f.Admits n) :
    f.valueName m = f.valueName n ↔ m = n := by
  refine ⟨fun h => ?_, fun h => congrArg f.valueName h⟩
  cases f with
  | minute => exact toString_inj.1 h
  | dayOfMonth => exact toString_inj.1 h
  | hour => exact hourLabel_inj hm hn h
  | month =>
    have hall : ∀ m ≤ 12, ∀ n ≤ 12, Field.month.valueName m = Field.month.valueName n → m = n := by
      decide
    exact hall m hm.2 n hn.2 h
  | dayOfWeek =>
    have hall : ∀ m ≤ 6, ∀ n ≤ 6, Field.dayOfWeek.valueName m = Field.dayOfWeek.valueName n →
        m = n := by decide
    exact hall m hm.2 n hn.2 h

section Labels

variable (f : Field) (start stop width : Nat)

theorem toList_label_range : ((Atom.range start stop).label f).toList =
    (f.valueName start).toList ++ '-' :: (f.valueName stop).toList := by
  simp [Atom.label]

theorem toList_label_step :
    ((Atom.step none width).label f).toList = '*' :: '/' :: (toString width).toList := by
  simp [Atom.label]

theorem toList_label_step_within : ((Atom.step (some (start, stop)) width).label f).toList =
    ((f.valueName start).toList ++ '-' :: (f.valueName stop).toList) ++
      '/' :: (toString width).toList := by
  simp [Atom.label]

end Labels

/-- The marks in the label of a set. -/
def Atom.marks : Atom → List Char
  | .wildcard => ['*']
  | .value _ => []
  | .range .. => ['-']
  | .step none _ => ['*', '/']
  | .step (some _) _ => ['-', '/']

theorem mem_label_iff {f : Field} {a : Atom} (h : a.WellFormed f) {c : Char} (hc : c ∈ labelMarks) :
    c ∈ (a.label f).toList ↔ c ∈ a.marks := by
  have hname {n : Nat} (hn : f.Admits n) : c ∉ (f.valueName n).toList := not_mem_valueName hn hc
  have hwidth (n : Nat) : c ∉ (toString n).toList := not_mem_toString (isDigit_of_mem_marks hc) n
  cases a with
  | wildcard => simp [Atom.label, Atom.marks]
  | value n => exact iff_of_false (hname h) List.not_mem_nil
  | range start stop =>
    obtain ⟨hstart, hstop, -⟩ := h
    rw [toList_label_range]
    simp only [Atom.marks, List.mem_append, List.mem_cons, List.not_mem_nil, hname hstart,
      hname hstop, false_or]
  | step ends width =>
    cases ends with
    | none =>
      rw [toList_label_step]
      simp only [Atom.marks, List.mem_cons, List.not_mem_nil, hwidth]
    | some ends =>
      obtain ⟨hstart, hstop, -⟩ := h
      rw [toList_label_step_within]
      simp only [Atom.marks, List.mem_append, List.mem_cons, List.not_mem_nil, hname hstart,
        hname hstop, hwidth, false_or, or_false]

/-- The names around a minus. -/
theorem range_inj {f : Field} {start stop start' stop' : Nat} (hstart : f.Admits start)
    (hstop : f.Admits stop) (hstart' : f.Admits start') (hstop' : f.Admits stop')
    (h : (f.valueName start).toList ++ '-' :: (f.valueName stop).toList =
      (f.valueName start').toList ++ '-' :: (f.valueName stop').toList) :
    start = start' ∧ stop = stop' := by
  obtain ⟨hfirst, hsecond⟩ := append_cons_inj (not_mem_valueName hstart (by decide))
    (not_mem_valueName hstart' (by decide)) h
  exact ⟨(valueName_inj hstart hstart').1 (String.toList_inj.1 hfirst),
    (valueName_inj hstop hstop').1 (String.toList_inj.1 hsecond)⟩

/-- Sets with the same label are the same. -/
theorem label_inj {f : Field} {a b : Atom} (ha : a.WellFormed f) (hb : b.WellFormed f)
    (h : a.label f = b.label f) : a = b := by
  have hmarks (c : Char) (hc : c ∈ labelMarks) : c ∈ a.marks ↔ c ∈ b.marks := by
    rw [← mem_label_iff ha hc, ← mem_label_iff hb hc, h]
  have hminus := hmarks '-' (by decide)
  have hslash := hmarks '/' (by decide)
  have hstar := hmarks '*' (by decide)
  have hchars := congrArg String.toList h
  -- with the same marks they are of the same form
  rcases a with _ | ⟨_ | ⟨start, stop⟩, width⟩ | ⟨start, stop⟩ | n <;>
    rcases b with _ | ⟨_ | ⟨start', stop'⟩, width'⟩ | ⟨start', stop'⟩ | n' <;>
    simp [Atom.marks] at hminus hslash hstar
  case wildcard.wildcard => rfl
  case value.value => rw [(valueName_inj ha hb).1 h]
  case range.range =>
    rw [toList_label_range, toList_label_range] at hchars
    obtain ⟨rfl, rfl⟩ := range_inj ha.1 ha.2.1 hb.1 hb.2.1 hchars
    rfl
  case step.none.step.none =>
    rw [toList_label_step, toList_label_step] at hchars
    have hwidth := String.toList_inj.1 (List.cons.inj (List.cons.inj hchars).2).2
    rw [toString_inj.1 hwidth]
  case step.some.step.some =>
    rw [toList_label_step_within, toList_label_step_within] at hchars
    -- the slash is cut at first, for names and minus are in front of it
    have hslash {m n : Nat} (hm : f.Admits m) (hn : f.Admits n) :
        '/' ∉ (f.valueName m).toList ++ '-' :: (f.valueName n).toList := by
      simp [not_mem_valueName hm (c := '/') (by decide), not_mem_valueName hn (c := '/') (by decide)]
    obtain ⟨hends, hwidth⟩ :=
      append_cons_inj (hslash ha.1 ha.2.1) (hslash hb.1 hb.2.1) hchars
    obtain ⟨rfl, rfl⟩ := range_inj ha.1 ha.2.1 hb.1 hb.2.1 hends
    rw [toString_inj.1 (String.toList_inj.1 hwidth)]

end Workflow.Schedule
