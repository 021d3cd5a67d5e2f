import Workflow.Eval.Convert
import Workflow.Proofs.Time.DateTimeText

/-! The order of points in time and that of their texts. From year 0 to year 9999 the fields of a
text have fixed widths, so that texts are in the order of time, but for those of leap seconds. -/
namespace Workflow.Time

open Text

/-- Of as many digits behind two numbers, those that write less are in front of the others, if the
numbers are the same. -/
theorem lt_of_ofDigitChars_lt {s t : List Char} (hs : ∀ c ∈ s, Number.isDigit c = true)
    (ht : ∀ c ∈ t, Number.isDigit c = true) (hlength : s.length = t.length) {a b : Nat}
    (h : Nat.ofDigitChars 10 s a < Nat.ofDigitChars 10 t b) :
    a < b ∨ a = b ∧ ∀ r r', s ++ r < t ++ r' := by
  induction s generalizing t a b with
  | nil =>
    obtain rfl := List.length_eq_zero_iff.1 hlength.symm
    exact Or.inl h
  | cons c s ih =>
    cases t with
    | nil => cases hlength
    | cons d t =>
      obtain ⟨hc, hs⟩ := List.forall_mem_cons.1 hs
      obtain ⟨hd, ht⟩ := List.forall_mem_cons.1 ht
      have hc := toNat_of_isDigit hc
      have hd := toNat_of_isDigit hd
      have hzero : '0'.toNat = 48 := rfl
      rw [Nat.ofDigitChars_cons, Nat.ofDigitChars_cons] at h
      rcases ih hs ht (Nat.succ.inj hlength) h with hlt | ⟨heq, hrest⟩
      · by_cases hab : a < b
        · exact Or.inl hab
        · have hcd : c.toNat < d.toNat := by omega
          exact Or.inr ⟨by omega, fun r r' => List.cons_lt_cons_iff.2 (Or.inl hcd)⟩
      · have hcd : c = d := Char.toNat_inj.1 (by omega)
        exact Or.inr ⟨by omega, fun r r' => List.cons_lt_cons_iff.2 (Or.inr ⟨hcd, hrest r r'⟩)⟩

theorem FixedDigits.append_lt {width m n : Nat} {s t : List Char} (hs : FixedDigits width s m)
    (ht : FixedDigits width t n) (h : m < n) (r r' : List Char) : s ++ r < t ++ r' := by
  obtain ⟨⟨-, hs, rfl⟩, hlength⟩ := hs
  obtain ⟨⟨-, ht, rfl⟩, hlength'⟩ := ht
  rcases lt_of_ofDigitChars_lt hs ht (hlength.trans hlength'.symm) h with hlt | ⟨-, hlt⟩
  · exact absurd hlt (Nat.lt_irrefl 0)
  · exact hlt r r'

theorem fixedDigits_padded {width n : Nat} (hw : 0 < width) (hn : n < 10 ^ width) :
    FixedDigits width (padded width n).toList n := by
  refine ⟨digits_padded width n, ?_⟩
  have hlength := (Nat.length_toDigits_le_iff (b := 10) (by decide) hw).2 hn
  rw [padded, padLeft, String.toList_ofList, ofNat_ten, List.length_append, List.length_replicate]
  omega

/-- Numbers in fields of given widths, each with a character behind it. -/
def fixedText : List (Nat × Char) → List Nat → List Char
  | (width, c) :: layout, n :: fields => (padded width n).toList ++ c :: fixedText layout fields
  | _, _ => []

/-- Every number has room in its field. -/
def HaveRoom (layout : List (Nat × Char)) (fields : List Nat) : Prop :=
  List.Forall₂ (fun column n => 0 < column.1 ∧ n < 10 ^ column.1) layout fields

theorem fixedText_lt {layout : List (Nat × Char)} {ms ns : List Nat} (hm : HaveRoom layout ms)
    (hn : HaveRoom layout ns) (h : ms < ns) : fixedText layout ms < fixedText layout ns := by
  induction layout generalizing ms ns with
  | nil =>
    cases hm
    cases hn
    exact absurd h (List.lt_irrefl _)
  | cons column layout ih =>
    obtain _ | ⟨⟨hw, hm⟩, hms⟩ := hm
    obtain _ | ⟨⟨-, hn⟩, hns⟩ := hn
    rcases List.cons_lt_cons_iff.1 h with hlt | ⟨rfl, hlt⟩
    · exact (fixedDigits_padded hw hm).append_lt (fixedDigits_padded hw hn) hlt _ _
    · exact List.append_left_lt (List.cons_lt_cons_iff.2 (Or.inr ⟨rfl, ih hms hns hlt⟩))

namespace Date

/-- The earlier of two days has the smaller year, month or day. -/
theorem fields_lt_of_toDays_lt {d e : Date} (hd : d.isValid = true) (he : e.isValid = true)
    (h : d.toDays < e.toDays) :
    d.year < e.year ∨ d.year = e.year ∧
      (d.month < e.month ∨ d.month = e.month ∧ d.day < e.day) := by
  rcases Int.lt_trichotomy d.year e.year with hlt | hy | hlt
  · exact Or.inl hlt
  · refine Or.inr ⟨hy, ?_⟩
    obtain ⟨hdm, -, -, hdl⟩ := (isValid_iff d).1 hd
    obtain ⟨hem, -, he1, hel⟩ := (isValid_iff e).1 he
    have ho : d.ordinal < e.ordinal := by
      unfold toDays at h
      rw [hy] at h
      omega
    unfold ordinal at ho
    rw [hy] at ho
    rcases Nat.lt_trichotomy d.month e.month with hlt | hm | hlt
    · exact Or.inl hlt
    · rw [hm] at ho
      exact Or.inr ⟨hm, Nat.lt_of_add_lt_add_left ho⟩
    · have := ordinal_lt_of_month_lt hem hlt hel
      omega
  · exact absurd h (Int.not_lt.2 (Int.le_of_lt (toDays_lt_of_year_lt he hd hlt)))

end Date

namespace Timestamp

/-- The columns of a text: year, month, day, hour, minute, second and milliseconds. -/
def columns : List (Nat × Char) :=
  [(4, '-'), (2, '-'), (2, 'T'), (2, ':'), (2, ':'), (2, '.'), (3, 'Z')]

def fields (t : Timestamp) : List Nat :=
  [t.date.year.toNat, t.date.month, t.date.day, t.hour, t.minute, t.second, t.milli]

/-- The year is written with four digits, and the second is none that was put in. -/
structure IsPlain (t : Timestamp) : Prop where
  year_nonneg : 0 ≤ t.date.year
  year_le : t.date.year ≤ 9999
  nanos_lt : t.nanos < nanosPerSecond

theorem IsPlain.milli_lt {t : Timestamp} (h : t.IsPlain) : t.milli < 1000 := by
  have := h.nanos_lt
  unfold milli nanosPerSecond at *
  omega

theorem isoText_eq {t : Timestamp} (h : t.IsPlain) :
    t.isoText.toList = fixedText columns t.fields := by
  have hwall : (Moment.ofUtc t).wall = t := by
    simp only [Moment.wall, Moment.ofUtc, Int.add_zero]
  have hyear : (yearText t.date.year).toList = (padded 4 t.date.year.toNat).toList := by
    have hy := h.year_nonneg
    have habs : t.date.year.natAbs = t.date.year.toNat := by omega
    rw [yearText, if_pos ⟨hy, h.year_le⟩, padInt, if_neg (Int.not_lt.2 hy), habs]
  have hzulu : (Moment.ofUtc t).offset = 0 := rfl
  unfold isoText Moment.isoText
  rw [hwall, if_pos hzulu]
  simp only [timestampText, dateText, fractionText, Nat.div_eq_of_lt h.nanos_lt,
    Nat.mod_eq_of_lt h.nanos_lt, String.toList_append, hyear, fixedText, columns, fields, milli,
    Nat.add_zero, List.append_assoc, String.reduceToList, List.cons_append, List.nil_append]

theorem haveRoom_fields {t : Timestamp} (h : t.IsPlain) : HaveRoom columns t.fields := by
  have hy := h.year_nonneg
  have hy' := h.year_le
  have hmilli := h.milli_lt
  obtain ⟨-, hm, -, hd⟩ := (Date.isValid_iff _).1 t.isValid_date
  have hl := monthLength_le (isLeap t.date.year) t.date.month
  have hs := t.secondOfDay_lt
  unfold HaveRoom columns fields hour minute second
  simp only [List.forall₂_cons, List.Forall₂.nil, and_true]
  omega

theorem fields_lt {s t : Timestamp} (hs : s.IsPlain) (ht : t.IsPlain)
    (h : s.toMillis < t.toMillis) : s.fields < t.fields := by
  have hsm := hs.milli_lt
  have htm := ht.milli_lt
  simp only [fields, List.cons_lt_cons_iff, List.lt_irrefl, and_false, or_false]
  unfold toMillis at h
  by_cases hday : s.seconds / secondsPerDay < t.seconds / secondsPerDay
  · have hdate := Date.fields_lt_of_toDays_lt s.isValid_date t.isValid_date
      (by rwa [toDays_date, toDays_date])
    have := hs.year_nonneg
    have := ht.year_nonneg
    omega
  · have hday : s.seconds / secondsPerDay = t.seconds / secondsPerDay := by
      unfold secondsPerDay at *
      omega
    have hdate : s.date = t.date := congrArg Date.ofDays hday
    have hclock : s.secondOfDay < t.secondOfDay ∨
        s.secondOfDay = t.secondOfDay ∧ s.milli < t.milli := by
      unfold secondOfDay secondsPerDay at *
      omega
    rw [hdate]
    unfold hour minute second
    omega

theorem fields_eq {s t : Timestamp} (hs : s.IsPlain) (ht : t.IsPlain)
    (h : s.toMillis = t.toMillis) : s.fields = t.fields := by
  have hsm := hs.milli_lt
  have htm := ht.milli_lt
  unfold toMillis at h
  have hseconds : s.seconds = t.seconds := by omega
  have hmilli : s.milli = t.milli := by omega
  simp only [fields, date, hour, minute, second, secondOfDay, hseconds, hmilli]

/-- The texts are in the order of time. -/
theorem textOrder_isoText {s t : Timestamp} (hs : s.IsPlain) (ht : t.IsPlain) :
    Eval.Value.textOrder s.isoText t.isoText = compare s.toMillis t.toMillis := by
  have hless {s t : Timestamp} (hs : s.IsPlain) (ht : t.IsPlain) (h : s.toMillis < t.toMillis) :
      s.isoText < t.isoText := by
    rw [String.lt_iff, isoText_eq hs, isoText_eq ht]
    exact fixedText_lt (haveRoom_fields hs) (haveRoom_fields ht) (fields_lt hs ht h)
  unfold Eval.Value.textOrder
  rcases Int.lt_trichotomy s.toMillis t.toMillis with h | h | h
  · rw [if_pos (hless hs ht h), Int.compare_eq_lt.2 h]
  · have heq : s.isoText = t.isoText := by
      rw [← String.toList_inj, isoText_eq hs, isoText_eq ht, fields_eq hs ht h]
    rw [heq, if_neg (String.lt_irrefl _), if_pos rfl, Int.compare_eq_eq.2 h]
  · have hlt := hless ht hs h
    have hne : s.isoText ≠ t.isoText := by
      intro heq
      rw [heq] at hlt
      exact String.lt_irrefl _ hlt
    rw [if_neg (String.lt_asymm hlt), if_neg hne, Int.compare_eq_gt.2 h]

/-- A day that has a date, and at most a leap second behind its seconds. -/
structure IsRepresentable (t : Timestamp) : Prop where
  inRange : t.inRange = true
  nanos_lt : t.nanos < 2 * nanosPerSecond

/-- Doubles hold all milliseconds exactly. -/
theorem IsRepresentable.toMillis_le {t : Timestamp} (h : t.IsRepresentable) :
    t.toMillis.natAbs ≤ Number.maxSafe := by
  obtain ⟨hrange, hnanos⟩ := h
  have hfirst : firstDay = -96465292 := by decide
  have hlast : lastDay = 95026236 := by decide
  unfold Timestamp.inRange at hrange
  rw [hfirst, hlast, Bool.and_eq_true, decide_eq_true_eq, decide_eq_true_eq] at hrange
  unfold toMillis milli Number.maxSafe secondsPerDay nanosPerSecond at *
  omega

theorem isoText_colon (t : Timestamp) : ':' ∈ t.isoText.toList := by
  unfold isoText Moment.isoText timestampText
  simp only [String.toList_append, String.reduceToList, List.mem_append, List.mem_singleton,
    or_true, true_or]

end Timestamp

end Workflow.Time
