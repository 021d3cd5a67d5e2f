import Workflow.Evaluate
import Workflow.Proofs.Time.LeapSecond
import Workflow.Proofs.Time.Offset
import Workflow.Proofs.Time.TextOrder

/-! The texts of points in time are read as the same points again, and an evaluation makes the same
points of them. From year 0 to year 9999, to the millisecond and to the minute of an offset, such a
text is of the internet form, which is the first one to be tried. -/
namespace Workflow.Time

open Text

theorem isBlank_head?_of_digits {width n : Nat} {s : List Char} (h : FixedDigits width s n)
    (rest : List Char) : ∀ c ∈ (s ++ rest).head?, isBlank c = false := by
  obtain ⟨first, tail, rfl, hdigit⟩ := h.exists_cons
  intro c hc
  obtain rfl := Option.some.inj hc
  exact not_isBlank_of_isDigit hdigit

theorem ClockWritten.getLast?_isBlank {s : List Char} {hour minute : Nat}
    (h : ClockWritten s hour minute) : ∃ c, s.getLast? = some c ∧ isBlank c = false := by
  cases h with
  | @intro _ minutes _ _ _ hm _ _ =>
    obtain ⟨⟨hne, hdigits, -⟩, -⟩ := hm
    refine ⟨minutes.getLast hne, ?_, not_isBlank_of_isDigit (hdigits _ (List.getLast_mem hne))⟩
    rw [List.getLast?_append, List.getLast?_cons, List.getLast?_eq_some_getLast hne]
    rfl

theorem OffsetWritten.getLast?_isBlank {s : List Char} {offset : Int}
    (h : OffsetWritten s offset) : ∃ c, s.getLast? = some c ∧ isBlank c = false := by
  cases h with
  | @zulu c hc =>
    refine ⟨c, rfl, ?_⟩
    rcases hc with rfl | rfl
    · decide
    · decide
  | ahead hs =>
    obtain ⟨c, hlast, hc⟩ := hs.getLast?_isBlank
    exact ⟨c, by rw [List.getLast?_cons, hlast]; rfl, hc⟩
  | behind hs =>
    obtain ⟨c, hlast, hc⟩ := hs.getLast?_isBlank
    exact ⟨c, by rw [List.getLast?_cons, hlast]; rfl, hc⟩

/-- There is no white space around such a text. -/
theorem Rfc3339.trim_eq {s : List Char} {m : Moment} (h : Rfc3339 s m) : trim s = s := by
  obtain ⟨⟨hy, -, -, -⟩, -, -, -, ho⟩ := h
  apply trim_eq_self
  · simp only [List.append_assoc]
    exact isBlank_head?_of_digits hy _
  · obtain ⟨c, hlast, hc⟩ := ho.getLast?_isBlank
    simp only [List.getLast?_append, List.getLast?_cons, hlast]
    intro d hd
    obtain rfl := Option.some.inj hd
    exact hc

/-- Whatever the other forms make of it, the text is read as its moment. -/
theorem parse?_of_rfc3339 {s : String} {m : Moment} (h : Rfc3339 s.toList m) :
    Moment.parse? s = some m := by
  unfold Moment.parse?
  dsimp only
  rw [h.trim_eq, ofStrict?_of_rfc3339 h]
  rfl

/-- What the text of a moment has room for: milliseconds, the minutes of an offset of less than a
day, and years of four digits on the clock. -/
structure Moment.IsWritable (m : Moment) : Prop where
  wellFormed : m.utc.WellFormed
  millis : m.utc.nanos % 1_000_000 = 0
  nearUtc : m.NearUtc
  minutes : m.offset % 60 = 0
  year_nonneg : 0 ≤ m.wall.date.year
  year_le : m.wall.date.year ≤ 9999

theorem dateWritten_dateText {d : Date} (hvalid : d.isValid = true) (hnonneg : 0 ≤ d.year)
    (hle : d.year ≤ 9999) : DateWritten (dateText d).toList d := by
  obtain ⟨-, hmonth, -, hday⟩ := (Date.isValid_iff d).1 hvalid
  have hlength := monthLength_le (isLeap d.year) d.month
  have habs : d.year.natAbs = d.year.toNat := by omega
  have hyear : ((d.year.toNat : Nat) : Int) = d.year := Int.toNat_of_nonneg hnonneg
  have hyears : FixedDigits 4 (padded 4 d.year.toNat).toList d.year.toNat :=
    fixedDigits_padded (by decide) (by omega)
  have hmonths : FixedDigits 2 (padded 2 d.month).toList d.month :=
    fixedDigits_padded (by decide) (by omega)
  have hdays : FixedDigits 2 (padded 2 d.day).toList d.day :=
    fixedDigits_padded (by decide) (by omega)
  have hwritten : DateWritten _ ⟨(d.year.toNat : Nat), d.month, d.day⟩ :=
    .intro hyears hmonths hdays (by rwa [hyear])
  rw [hyear] at hwritten
  have htext : (dateText d).toList = (padded 4 d.year.toNat).toList ++
      '-' :: ((padded 2 d.month).toList ++ '-' :: (padded 2 d.day).toList) := by
    unfold dateText yearText padInt
    rw [if_pos ⟨hnonneg, hle⟩, if_neg (Int.not_lt.2 hnonneg), habs]
    simp only [String.toList_append, String.reduceToList, List.append_assoc, List.cons_append,
      List.nil_append]
  rw [htext]
  exact hwritten

theorem clockWritten_padded {hour minute : Nat} (hh : hour < 24) (hm : minute < 60) :
    ClockWritten ((padded 2 hour).toList ++ ':' :: (padded 2 minute).toList) hour minute :=
  .intro (fixedDigits_padded (by decide) (by omega)) (fixedDigits_padded (by decide) (by omega))
    hh hm

theorem fractionWritten_millis {nanos : Nat} (hlt : nanos < nanosPerSecond)
    (hmillis : nanos % 1_000_000 = 0) :
    FractionWritten (fractionText .millis nanos).toList nanos := by
  unfold nanosPerSecond at hlt
  have hfixed : FixedDigits 3 (padded 3 (nanos / 1_000_000)).toList (nanos / 1_000_000) :=
    fixedDigits_padded (by decide) (by omega)
  obtain ⟨hdigits, hlength⟩ := hfixed
  have hnanos : nanosOf (padded 3 (nanos / 1_000_000)).toList = nanos := by
    have htake : (padded 3 (nanos / 1_000_000)).toList.take 9 =
        (padded 3 (nanos / 1_000_000)).toList :=
      List.take_of_length_le (by omega)
    have hvalue : Nat.ofDigitChars 10 (padded 3 (nanos / 1_000_000)).toList 0 = nanos / 1_000_000 :=
      hdigits.2.2
    rw [nanosOf_eq, htake, hlength, hvalue]
    omega
  have htext : (fractionText .millis nanos).toList = '.' :: (padded 3 (nanos / 1_000_000)).toList :=
    String.toList_append
  have hwritten := FractionWritten.digits hdigits
  rwa [hnanos, ← htext] at hwritten

/-- The second, which is 60 for a leap second, and its milliseconds. -/
def secondText (second nanos : Nat) : List Char :=
  ':' :: ((padded 2 (second + nanos / nanosPerSecond)).toList ++
    (fractionText .millis (nanos % nanosPerSecond)).toList)

theorem secondWritten_secondText {second nanos : Nat} (hs : second < 60)
    (hn : nanos < nanosPerSecond ∨ nanos < 2 * nanosPerSecond ∧ second = 59)
    (hmillis : nanos % 1_000_000 = 0) : SecondWritten (secondText second nanos) second nanos := by
  unfold secondText
  by_cases hlt : nanos < nanosPerSecond
  · have hfraction := fractionWritten_millis hlt hmillis
    rw [Nat.div_eq_of_lt hlt, Nat.mod_eq_of_lt hlt, Nat.add_zero]
    exact .usual (fixedDigits_padded (by decide) (by omega)) hs hfraction
  -- of a leap second a whole second is written as part of the second 60
  · obtain ⟨hlt2, rfl⟩ := hn.resolve_left hlt
    obtain ⟨rest, rfl⟩ := Nat.exists_eq_add_of_le (Nat.not_lt.1 hlt)
    have hrest : rest < nanosPerSecond := by omega
    have hdiv : (nanosPerSecond + rest) / nanosPerSecond = 1 := by
      unfold nanosPerSecond at *
      omega
    have hmod : (nanosPerSecond + rest) % nanosPerSecond = rest := by
      rw [Nat.add_mod_left, Nat.mod_eq_of_lt hrest]
    have hfraction : FractionWritten (fractionText .millis rest).toList rest := by
      apply fractionWritten_millis hrest
      unfold nanosPerSecond at hmillis
      omega
    rw [hdiv, hmod]
    exact .leap (fixedDigits_padded (by decide) (by decide)) hfraction

/-- The offset as it is written behind a text. -/
def zoneText (offset : Int) : String :=
  if offset = 0 then "Z" else offsetText offset

theorem offsetWritten_zoneText {offset : Int} (hnear : offset.natAbs < 86400)
    (hminutes : offset % 60 = 0) : OffsetWritten (zoneText offset).toList offset := by
  unfold zoneText
  split
  · rename_i hzero
    rw [hzero]
    exact .zulu (Or.inl rfl)
  · obtain ⟨minutes, hoffset⟩ := Int.dvd_of_emod_eq_zero hminutes
    have hround : (offset.natAbs + 30) / 60 = minutes.natAbs := by omega
    have hhour : minutes.natAbs / 60 < 24 := by omega
    have hminute : minutes.natAbs % 60 < 60 := Nat.mod_lt _ (by decide)
    have hclock := clockWritten_padded hhour hminute
    unfold offsetText
    rw [hround]
    by_cases hneg : offset < 0
    · have hwritten := OffsetWritten.behind hclock
      have hsum : -(((minutes.natAbs / 60 : Nat) : Int) * 3600 +
          ((minutes.natAbs % 60 : Nat) : Int) * 60) = offset := by
        omega
      rw [hsum] at hwritten
      simpa only [hneg, if_true, String.toList_append, String.reduceToList, List.cons_append,
        List.nil_append, List.append_assoc] using hwritten
    · have hwritten := OffsetWritten.ahead hclock
      have hsum : ((minutes.natAbs / 60 : Nat) : Int) * 3600 +
          ((minutes.natAbs % 60 : Nat) : Int) * 60 = offset := by
        omega
      rw [hsum] at hwritten
      simpa only [hneg, if_false, String.toList_append, String.reduceToList, List.cons_append,
        List.nil_append, List.append_assoc] using hwritten

namespace Moment

theorem isoText_toList (m : Moment) : m.isoText.toList =
    (dateText m.wall.date).toList ++ 'T' ::
      (((padded 2 m.wall.hour).toList ++ ':' :: (padded 2 m.wall.minute).toList) ++
        (secondText m.wall.second m.wall.nanos ++ (zoneText m.offset).toList)) := by
  unfold isoText timestampText secondText
  simp only [String.toList_append, String.reduceToList, List.append_assoc, List.cons_append,
    List.nil_append]
  rfl

/-- A clock shows the moment by its date and its hour, minute and second. -/
theorem ofWall_ofClock (m : Moment) : ofWall (.ofClock m.wall.date m.wall.hour m.wall.minute
    m.wall.second m.wall.nanos) m.offset = m := by
  have hdays := m.wall.toDays_date
  have hseconds : m.wall.date.toDays * secondsPerDay +
      ((m.wall.hour * 3600 + m.wall.minute * 60 + m.wall.second : Nat) : Int) - m.offset =
        m.utc.seconds := by
    rw [hdays]
    unfold Timestamp.hour Timestamp.minute Timestamp.second Timestamp.secondOfDay secondsPerDay
    show _ = m.utc.seconds
    have hwall : m.wall.seconds = m.utc.seconds + m.offset := rfl
    omega
  unfold ofWall Timestamp.ofClock Timestamp.ofDate
  dsimp only
  rw [hseconds]
  rfl

theorem rfc3339_isoText {m : Moment} (h : m.IsWritable) : Rfc3339 m.isoText.toList m := by
  have hday := m.wall.secondOfDay_lt
  have hminutes := h.minutes
  have hclock : m.wall.nanos < nanosPerSecond ∨
      m.wall.nanos < 2 * nanosPerSecond ∧ m.wall.second = 59 := by
    refine (Nat.lt_or_ge m.utc.nanos nanosPerSecond).imp_right fun hleap => ?_
    -- whole minutes away the clock shows the same second
    have hlast := h.wellFormed.2 hleap
    have hwall : m.wall.seconds = m.utc.seconds + m.offset := rfl
    refine ⟨h.wellFormed.1, ?_⟩
    unfold Timestamp.second Timestamp.secondOfDay secondsPerDay
    omega
  have hhour : m.wall.hour < 24 := by
    unfold Timestamp.hour
    omega
  have hminute : m.wall.minute < 60 := by
    unfold Timestamp.minute
    omega
  have hsecond : m.wall.second < 60 := by
    unfold Timestamp.second
    omega
  have hwritten := Rfc3339.intro
    (dateWritten_dateText m.wall.isValid_date h.year_nonneg h.year_le) (t := 'T') (by simp)
    (clockWritten_padded hhour hminute) (secondWritten_secondText hsecond hclock h.millis)
    (offsetWritten_zoneText h.nearUtc h.minutes)
  rwa [← isoText_toList, ofWall_ofClock] at hwritten

theorem parse?_isoText {m : Moment} (h : m.IsWritable) : parse? m.isoText = some m :=
  parse?_of_rfc3339 (rfc3339_isoText h)

end Moment

end Workflow.Time

namespace Workflow.Eval

open Time

/-- Wherever the text of a point in time comes up in an evaluation, the same point in time is made
of it: by `toISO`, as text, and as the outcome. -/
theorem time_texts_read_back {m : Moment} {t : Timestamp} (hm : m.IsWritable)
    (ht : (Moment.ofUtc t).IsWritable) (call : Caller) (args : List Value) :
    (∃ text, callFunc call (.momentMethod m .toISO) args = pure (.string text) ∧
      (Value.moment m).display = text ∧ (Outcome.moment m).toJson = .string text ∧
      Moment.parse? text = some m ∧
      callFunc call (.native .dateTimeFromISO) [.string text] = pure (.moment m)) ∧
    ∃ text, callFunc call (.dateMethod t .iso) args = pure (.string text) ∧
      (Value.date t).display = text ∧ (Value.date t).toJson? = some (.string text) ∧
      construct (.space .date) [.string text] = pure (.date t) := by
  have hread := Moment.parse?_isoText hm
  have hdate (now : Timestamp) : constructDate? now [.string t.isoText] = some t := by
    show (Moment.parse? (Moment.ofUtc t).isoText).map (·.utc) = _
    rw [Moment.parse?_isoText ht]
    rfl
  refine ⟨⟨m.isoText, rfl, String.empty_append, rfl, hread, ?_⟩,
    ⟨t.isoText, rfl, String.empty_append, rfl, ?_⟩⟩
  · show (do return Value.moment (← orOutOfRange .moment (Moment.parse? ("" ++ m.isoText))) :
      EvalM Value) = _
    rw [String.empty_append, hread]
    rfl
  · unfold construct
    simp only [hdate]
    rfl

theorem time_texts_read_back_in_leap_second :
    let m : Moment := ⟨⟨1483228799, 1_500_000_000⟩, 5400⟩
    let t : Timestamp := ⟨-62167219200, 0⟩
    m.IsWritable ∧ (Moment.ofUtc t).IsWritable ∧
      (∃ text, callFunc (callValue 0) (.momentMethod m .toISO) [] = pure (.string text) ∧
        callFunc (callValue 0) (.native .dateTimeFromISO) [.string text] = pure (.moment m)) ∧
      ∃ text, callFunc (callValue 0) (.dateMethod t .iso) [] = pure (.string text) ∧
        construct (.space .date) [.string text] = pure (.date t) := by
  intro m t
  have hm : m.IsWritable :=
    ⟨⟨by decide, by decide⟩, by decide, show 5400 < 86400 by decide, by decide, by decide +kernel,
      by decide +kernel⟩
  have ht : (Moment.ofUtc t).IsWritable :=
    ⟨⟨by decide, by decide⟩, by decide, Moment.nearUtc_ofUtc t, by decide, by decide +kernel,
      by decide +kernel⟩
  obtain ⟨⟨text, hiso, -, -, -, hread⟩, date, hdate, -, -, hnew⟩ :=
    time_texts_read_back hm ht (callValue 0) []
  exact ⟨hm, ht, ⟨text, hiso, hread⟩, date, hdate, hnew⟩

end Workflow.Eval
