import Mathlib.Data.List.TakeWhile
import Mathlib.Tactic.Common
import Mathlib.Tactic.Linarith
import Workflow.Proofs.Text.Decimal
import Workflow.Proofs.Time.Calendar
import Workflow.Schedule.Conversion

/-! Texts that give a date and a time of day, with an offset from universal time as in RFC 3339 or
without one. Each is read as the moment, or as what a clock shows, that it says. -/
namespace Workflow.Time

open Text

/-- Digits, just `width` of them, and the number that they write. -/
def FixedDigits (width : Nat) (s : List Char) (n : Nat) : Prop :=
  Digits s n ∧ s.length = width

instance (width : Nat) (s : List Char) (n : Nat) : Decidable (FixedDigits width s n) :=
  decidable_of_iff (digits? 10 s = some n ∧ s.length = width)
    (and_congr_left' digits?_eq_some_iff)

/-- Four digits for a year, two for a month and two for one of its days, with hyphens between. -/
inductive DateWritten : List Char → Date → Prop
  | intro {y m d : List Char} {year month day : Nat} :
    FixedDigits 4 y year → FixedDigits 2 m month → FixedDigits 2 d day →
      Date.isValid ⟨year, month, day⟩ = true →
      DateWritten (y ++ '-' :: (m ++ '-' :: d)) ⟨year, month, day⟩

/-- Two digits for an hour and two for a minute, with a colon between. -/
inductive ClockWritten : List Char → Nat → Nat → Prop
  | intro {h m : List Char} {hour minute : Nat} :
    FixedDigits 2 h hour → FixedDigits 2 m minute → hour < 24 → minute < 60 →
      ClockWritten (h ++ ':' :: m) hour minute

/-- The nanoseconds of a fraction: its first nine digits, with zeros for those that are missing. -/
def nanosOf (s : List Char) : Nat :=
  Nat.ofDigitChars 10 ((s ++ List.replicate 9 '0').take 9) 0

/-- A point and digits behind it, or nothing. -/
inductive FractionWritten : List Char → Nat → Prop
  | none : FractionWritten [] 0
  | digits {s : List Char} {n : Nat} : Digits s n → FractionWritten ('.' :: s) (nanosOf s)

/-- A colon, two digits for a second, and a fraction. Second 60 is the leap second behind second
59. -/
inductive SecondWritten : List Char → Nat → Nat → Prop
  | usual {s f : List Char} {second nanos : Nat} :
    FixedDigits 2 s second → second < 60 → FractionWritten f nanos →
      SecondWritten (':' :: (s ++ f)) second nanos
  | leap {s f : List Char} {nanos : Nat} :
    FixedDigits 2 s 60 → FractionWritten f nanos →
      SecondWritten (':' :: (s ++ f)) 59 (nanosPerSecond + nanos)

/-- A Z, or hours and minutes ahead of universal time or behind it. -/
inductive OffsetWritten : List Char → Int → Prop
  | zulu {c : Char} : c = 'Z' ∨ c = 'z' → OffsetWritten [c] 0
  | ahead {s : List Char} {hours minutes : Nat} : ClockWritten s hours minutes →
    OffsetWritten ('+' :: s) (hours * 3600 + minutes * 60)
  | behind {s : List Char} {hours minutes : Nat} : ClockWritten s hours minutes →
    OffsetWritten ('-' :: s) (-(hours * 3600 + minutes * 60))

/-- What a clock shows on a date. -/
def Timestamp.ofClock (d : Date) (hour minute second nanos : Nat) : Timestamp :=
  { Timestamp.ofDate d (hour * 3600 + minute * 60 + second) with nanos }

/-- The internet form of a moment, with any of the separators that are in use. -/
inductive Rfc3339 : List Char → Moment → Prop
  | intro {d c s o : List Char} {t : Char} {date : Date} {hour minute second nanos : Nat}
    {offset : Int} : DateWritten d date → t ∈ ['T', 't', ' '] → ClockWritten c hour minute →
      SecondWritten s second nanos → OffsetWritten o offset →
      Rfc3339 (d ++ t :: (c ++ (s ++ o)))
        (.ofWall (.ofClock date hour minute second nanos) offset)

/-- What a clock shows, to the minute or with seconds; only behind a `T` with a fraction. -/
inductive WallWritten : List Char → Timestamp → Prop
  | minute {d c : List Char} {t : Char} {date : Date} {hour minute : Nat} :
    DateWritten d date → t = 'T' ∨ t = ' ' → ClockWritten c hour minute →
      WallWritten (d ++ t :: c) (.ofClock date hour minute 0 0)
  | second {d c s : List Char} {date : Date} {hour minute second nanos : Nat} :
    DateWritten d date → ClockWritten c hour minute → SecondWritten s second nanos →
      WallWritten (d ++ 'T' :: (c ++ s)) (.ofClock date hour minute second nanos)
  | whole {d c s : List Char} {date : Date} {hour minute second : Nat} :
    DateWritten d date → ClockWritten c hour minute → FixedDigits 2 s second → second < 60 →
      WallWritten (d ++ ' ' :: (c ++ ':' :: s)) (.ofClock date hour minute second 0)

theorem ofDigitChars_lt {s : List Char} (h : ∀ c ∈ s, Number.isDigit c = true) (n : Nat) :
    Nat.ofDigitChars 10 s n < (n + 1) * 10 ^ s.length := by
  induction s generalizing n with
  | nil => simp
  | cons c s ih =>
    obtain ⟨hc, hs⟩ := List.forall_mem_cons.1 h
    obtain ⟨-, hle⟩ := toNat_of_isDigit hc
    have hdigit : c.toNat - '0'.toNat ≤ 9 := by
      show c.toNat - 48 ≤ 9
      omega
    have hstep : 10 * n + (c.toNat - '0'.toNat) + 1 ≤ (n + 1) * 10 := by omega
    rw [Nat.ofDigitChars_cons, List.length_cons]
    calc Nat.ofDigitChars 10 s (10 * n + (c.toNat - '0'.toNat))
        < (10 * n + (c.toNat - '0'.toNat) + 1) * 10 ^ s.length := ih hs _
      _ ≤ (n + 1) * 10 * 10 ^ s.length := Nat.mul_le_mul_right _ hstep
      _ = (n + 1) * 10 ^ (s.length + 1) := by rw [Nat.pow_succ, Nat.mul_assoc, Nat.mul_comm 10]

theorem FixedDigits.lt {width n : Nat} {s : List Char} (h : FixedDigits width s n) :
    n < 10 ^ width := by
  obtain ⟨⟨-, hd, rfl⟩, rfl⟩ := h
  have hlt := ofDigitChars_lt hd 0
  rwa [Nat.zero_add, Nat.one_mul] at hlt

theorem FixedDigits.exists_cons {width n : Nat} {s : List Char} (h : FixedDigits width s n) :
    ∃ c tail, s = c :: tail ∧ Number.isDigit c = true := by
  obtain ⟨⟨hne, hd, -⟩, -⟩ := h
  obtain ⟨c, tail, rfl⟩ := List.exists_cons_of_ne_nil hne
  exact ⟨c, tail, rfl, hd c List.mem_cons_self⟩

theorem nanosOf_lt {s : List Char} (h : ∀ c ∈ s, Number.isDigit c = true) :
    nanosOf s < nanosPerSecond := by
  have hzero : ∀ c ∈ List.replicate 9 '0', Number.isDigit c = true := by
    intro c hc
    rw [List.eq_of_mem_replicate hc]
    rfl
  have hall : ∀ c ∈ (s ++ List.replicate 9 '0').take 9, Number.isDigit c = true := by
    intro c hc
    rcases List.mem_append.1 (List.mem_of_mem_take hc) with hc | hc
    · exact h c hc
    · exact hzero c hc
  have hlength : ((s ++ List.replicate 9 '0').take 9).length = 9 := by
    rw [List.length_take, List.length_append, List.length_replicate]
    omega
  have hlt := ofDigitChars_lt hall 0
  rw [hlength] at hlt
  exact hlt

theorem nanosOf_eq (s : List Char) :
    nanosOf s = Nat.ofDigitChars 10 (s.take 9) 0 * 10 ^ (9 - s.length) := by
  have hmin : min (9 - s.length) 9 = 9 - s.length := Nat.min_eq_left (Nat.sub_le _ _)
  unfold nanosOf
  rw [List.take_append, List.take_replicate, hmin, Nat.ofDigitChars_append,
    Nat.ofDigitChars_replicate_zero, Nat.mul_comm]

theorem FractionWritten.lt {f : List Char} {nanos : Nat} (h : FractionWritten f nanos) :
    nanos < nanosPerSecond := by
  cases h with
  | none => decide
  | digits hd => exact nanosOf_lt hd.2.1

theorem SecondWritten.lt {s : List Char} {second nanos : Nat} (h : SecondWritten s second nanos) :
    second < 60 := by
  cases h with
  | usual _ hlt _ => exact hlt
  | leap => decide

theorem ClockWritten.hour_lt {s : List Char} {hour minute : Nat} (h : ClockWritten s hour minute) :
    hour < 24 := by
  cases h with
  | intro _ _ hh _ => exact hh

theorem ClockWritten.minute_lt {s : List Char} {hour minute : Nat}
    (h : ClockWritten s hour minute) : minute < 60 := by
  cases h with
  | intro _ _ _ hm => exact hm

namespace Reader

variable {α β : Type}

theorem bind_of_ok {r : Reader α} {f : α → Reader β} {s rest : List Char} {a : α}
    (h : r s = .ok (a, rest)) : (r >>= f) s = f a rest := by
  show (r s >>= fun p => f p.1 p.2) = _
  rw [h]
  rfl

theorem bind_of_error {r : Reader α} {f : α → Reader β} {s : List Char} {cause : Misread}
    (h : r s = .error cause) : (r >>= f) s = .error cause := by
  show (r s >>= fun p => f p.1 p.2) = _
  rw [h]
  rfl

theorem oneOf_cons {cs : List Char} {c : Char} (h : c ∈ cs) (rest : List Char) :
    oneOf cs (c :: rest) = .ok (c, rest) :=
  if_pos (List.contains_iff_mem.2 h)

theorem oneOf_of_not_mem {cs : List Char} {c : Char} (h : c ∉ cs) (rest : List Char) :
    oneOf cs (c :: rest) = .error .invalid :=
  if_neg fun hc => h (List.contains_iff_mem.1 hc)

theorem char_cons (c : Char) (rest : List Char) : char c (c :: rest) = .ok ((), rest) :=
  bind_of_ok (oneOf_cons (List.mem_singleton_self c) rest)

theorem char_of_ne {c d : Char} (h : d ≠ c) (rest : List Char) :
    char c (d :: rest) = .error .invalid :=
  bind_of_error (oneOf_of_not_mem (by simpa using h) rest)

theorem char_nil (c : Char) : char c [] = .error .tooShort :=
  rfl

theorem digits_fixed {least width n : Nat} {s : List Char} (h : FixedDigits width s n)
    (hle : least ≤ width) (rest : List Char) : digits least width (s ++ rest) = .ok (n, rest) := by
  obtain ⟨hd, hlen⟩ := h
  have htake : (s ++ rest).take width = s := by
    rw [← hlen, List.take_left]
  have hrun : s.takeWhile isDigit = s := List.takeWhile_eq_self_iff.2 hd.2.1
  have hleast : ¬s.length < least := by omega
  unfold digits
  rw [htake, hrun]
  dsimp only
  rw [if_neg hleast, digits?_eq_some_iff.2 hd, List.drop_left]

theorem field_fixed {n : Nat} {s : List Char} (h : FixedDigits 2 s n) (rest : List Char) :
    field (s ++ rest) = .ok (n, rest) := by
  obtain ⟨c, tail, hs, hc⟩ := h.exists_cons
  have hskip : skip isBlank (s ++ rest) = .ok ((), s ++ rest) := by
    unfold skip
    rw [hs, List.cons_append, List.dropWhile_cons_of_neg (by simp [not_isBlank_of_isDigit hc])]
  unfold field
  rw [bind_of_ok hskip, digits_fixed h (by decide)]

theorem year_fixed {n : Nat} {s : List Char} (h : FixedDigits 4 s n) (rest : List Char) :
    year (s ++ rest) = .ok ((n : Int), rest) := by
  have hread := digits_fixed h (show 1 ≤ 4 by decide) rest
  obtain ⟨c, tail, rfl, hc⟩ := h.exists_cons
  have hblank : isBlank c = false := not_isBlank_of_isDigit hc
  have hminus : c ≠ '-' := by
    rintro rfl
    exact absurd hc (by decide)
  have hplus : c ≠ '+' := by
    rintro rfl
    exact absurd hc (by decide)
  unfold year
  rw [List.cons_append, List.dropWhile_cons_of_neg (by simp [hblank])]
  split
  · rename_i heq
    exact absurd (List.cons.inj heq).1 hminus
  · rename_i heq
    exact absurd (List.cons.inj heq).1 hplus
  · rw [← List.cons_append, hread]
    rfl

theorem date_written {s : List Char} {d : Date} (h : DateWritten s d) (rest : List Char) :
    date (s ++ rest) = .ok (⟨d.year, d.month, d.day⟩, rest) := by
  obtain ⟨hy, hm, hd, -⟩ := h
  unfold date
  rw [List.append_assoc, bind_of_ok (year_fixed hy _), List.cons_append,
    bind_of_ok (char_cons _ _), List.append_assoc, bind_of_ok (field_fixed hm _), List.cons_append,
    bind_of_ok (char_cons _ _), bind_of_ok (field_fixed hd _)]
  rfl

theorem hourMinute_written {s : List Char} {hour minute : Nat} (h : ClockWritten s hour minute)
    (rest : List Char) : hourMinute (s ++ rest) = .ok ((hour, minute), rest) := by
  obtain ⟨hh, hm, -, -⟩ := h
  unfold hourMinute
  rw [List.append_assoc, bind_of_ok (field_fixed hh _), List.cons_append,
    bind_of_ok (char_cons _ _), bind_of_ok (field_fixed hm _)]
  rfl

/-- Whether a text cannot be part of a fraction before it. -/
def EndsFraction (rest : List Char) : Prop :=
  ∀ c ∈ rest.head?, isDigit c = false ∧ c ≠ '.'

theorem endsFraction_nil : EndsFraction [] :=
  fun c hc => absurd hc (Option.not_mem_none c)

theorem digits_run {s rest : List Char} {n : Nat} (h : Digits s n) (hrest : EndsFraction rest) :
    digits 1 9 (s ++ rest) = .ok (Nat.ofDigitChars 10 (s.take 9) 0, s.drop 9 ++ rest) := by
  obtain ⟨hne, hd, -⟩ := h
  have hstop : rest.takeWhile isDigit = [] := by
    cases rest with
    | nil => rfl
    | cons c rest => exact List.takeWhile_cons_of_neg (by simp [(hrest c rfl).1])
  have hall : ∀ c ∈ s, isDigit c = true := hd
  -- the ninth digit ends the run, or else what stands behind the digits does
  have hrun : ((s ++ rest).take 9).takeWhile isDigit = s.take 9 := by
    rw [← List.take_takeWhile, List.takeWhile_append_of_pos hall, hstop, List.append_nil]
  have hfirst : Digits (s.take 9) (Nat.ofDigitChars 10 (s.take 9) 0) := by
    refine ⟨?_, fun c hc => hd c (List.mem_of_mem_take hc), rfl⟩
    rw [Ne, List.take_eq_nil_iff, not_or]
    exact ⟨by decide, hne⟩
  have hpos : 0 < (s.take 9).length := List.length_pos_iff.2 hfirst.1
  have hdrop : (s ++ rest).drop (s.take 9).length = s.drop 9 ++ rest := by
    rw [show s ++ rest = s.take 9 ++ (s.drop 9 ++ rest) by
      rw [← List.append_assoc, List.take_append_drop], List.drop_left]
  unfold digits
  rw [hrun]
  dsimp only
  rw [if_neg (by omega), digits?_eq_some_iff.2 hfirst, hdrop]

theorem fraction_written {f rest : List Char} {nanos : Nat} (h : FractionWritten f nanos)
    (hrest : EndsFraction rest) : fraction (f ++ rest) = .ok (nanos, rest) := by
  cases h with
  | none =>
    cases rest with
    | nil => rfl
    | cons c rest =>
      have hc := (hrest c rfl).2
      unfold fraction
      split
      · rename_i heq
        exact absurd (List.cons.inj heq).1 hc
      · rfl
  | @digits s n hd =>
    -- digits behind the ninth do not count
    have htaken : (s ++ rest).length - (s.drop 9 ++ rest).length = min 9 s.length := by
      rw [List.length_append, List.length_append, List.length_drop]
      omega
    have hpast : ∀ c ∈ s.drop 9, isDigit c = true := fun c hc =>
      hd.2.1 c (List.mem_of_mem_drop hc)
    have hlater : (s.drop 9 ++ rest).dropWhile isDigit = rest := by
      rw [List.dropWhile_append_of_pos hpast]
      exact dropWhile_eq_self fun c hc => (hrest c hc).1
    show (digits 1 9 (s ++ rest) >>= fun p => Except.ok
      (p.1 * Nat.pow 10 (9 - ((s ++ rest).length - p.2.length)), p.2.dropWhile isDigit)) = _
    rw [digits_run hd hrest]
    show Except.ok (_ * Nat.pow 10 (9 - ((s ++ rest).length - (s.drop 9 ++ rest).length)),
      (s.drop 9 ++ rest).dropWhile isDigit) = _
    rw [htaken, hlater, nanosOf_eq, Nat.pow_eq, show 9 - min 9 s.length = 9 - s.length by omega]

theorem pair_written {s : List Char} {n high : Nat} (h : FixedDigits 2 s n) (hn : n ≤ high)
    (rest : List Char) : pair 0 high (s ++ rest) = .ok (n, rest) := by
  unfold pair
  rw [bind_of_ok (digits_fixed h (by decide) rest), if_pos ⟨Nat.zero_le n, hn⟩]
  rfl

theorem offset_written {sign : Char} (hsign : sign ∈ ['+', '-', '−']) {s : List Char}
    {hours minutes : Nat} (h : ClockWritten s hours minutes) :
    offset (char ':') (sign :: s) = .ok
      (if sign = '+' then (hours * 3600 + minutes * 60 : Int) else -(hours * 3600 + minutes * 60),
        []) := by
  obtain ⟨hh, hm, -, hlt⟩ := h
  have hlast := pair_written hm (Nat.le_of_lt_succ hlt) []
  rw [List.append_nil] at hlast
  unfold offset
  rw [bind_of_ok (oneOf_cons hsign _), bind_of_ok (digits_fixed hh (by decide) _),
    bind_of_ok (char_cons _ _), bind_of_ok hlast]
  rfl

theorem zuluOrOffset_written {o : List Char} {offset : Int} (h : OffsetWritten o offset) :
    zuluOrOffset o = .ok (offset, []) := by
  cases h with
  | zulu hc =>
    rcases hc with rfl | rfl
    · rfl
    · rfl
  | ahead hs => exact offset_written (by simp) hs
  | behind hs => exact offset_written (by simp) hs

theorem zuluOrOffset_nil : zuluOrOffset [] = .error .tooShort :=
  rfl

end Reader

theorem OffsetWritten.endsFraction {o : List Char} {offset : Int} (h : OffsetWritten o offset) :
    Reader.EndsFraction o := by
  cases h with
  | zulu hc =>
    intro c hmem
    obtain rfl := Option.some.inj hmem
    rcases hc with rfl | rfl
    · decide
    · decide
  | ahead =>
    intro c hmem
    obtain rfl := Option.some.inj hmem
    decide
  | behind =>
    intro c hmem
    obtain rfl := Option.some.inj hmem
    decide

theorem OffsetWritten.lt {o : List Char} {offset : Int} (h : OffsetWritten o offset) :
    offset.natAbs < 86400 := by
  cases h with
  | zulu => decide
  | ahead hs =>
    obtain ⟨-, -, hh, hm⟩ := hs
    omega
  | behind hs =>
    obtain ⟨-, -, hh, hm⟩ := hs
    omega

theorem DateWritten.bounds {s : List Char} {d : Date} (h : DateWritten s d) :
    0 ≤ d.year ∧ d.year ≤ 9999 ∧ d.isValid = true := by
  obtain ⟨hy, -, -, hvalid⟩ := h
  have hlt := hy.lt
  refine ⟨Int.natCast_nonneg _, ?_, hvalid⟩
  show ((_ : Nat) : Int) ≤ 9999
  omega

theorem date_ofFields? {s : List Char} {d : Date} (h : DateWritten s d) :
    Date.ofFields? d.year d.month d.day = some d := by
  obtain ⟨hlow, hhigh, hvalid⟩ := h.bounds
  have hfirst : (-262143 : Int) ≤ d.year := by omega
  have hlast : d.year ≤ (262142 : Int) := by omega
  exact if_pos ⟨hfirst, hlast, hvalid⟩

theorem ofFields?_ofClock {s c : List Char} {d : Date} {hour minute second nanos : Nat}
    (hd : DateWritten s d) (hc : ClockWritten c hour minute) (hs : second < 60)
    (hn : nanos < 2 * nanosPerSecond) (hleap : nanos < nanosPerSecond ∨ second = 59) :
    Timestamp.ofFields? d.year d.month d.day hour minute second nanos =
      some (.ofClock d hour minute second nanos) := by
  have hclock : hour < 24 ∧ minute < 60 ∧ second < 60 ∧ nanos < 2 * nanosPerSecond ∧
      (nanos < nanosPerSecond ∨ second = 59) :=
    ⟨hc.hour_lt, hc.minute_lt, hs, hn, hleap⟩
  unfold Timestamp.ofFields?
  rw [date_ofFields? hd, Option.bind_eq_bind, Option.bind_some, if_pos hclock]
  rfl

/-- What a second and its fraction are read as. -/
theorem SecondWritten.exists_read {t : List Char} {second nanos : Nat}
    (h : SecondWritten t second nanos) :
    ∃ s f n k, t = ':' :: (s ++ f) ∧ FixedDigits 2 s n ∧ FractionWritten f k ∧
      ∀ {d c : List Char} {date : Date} {hour minute : Nat}, DateWritten d date →
        ClockWritten c hour minute →
        Reader.timestamp? date.year date.month date.day hour minute n k =
          some (.ofClock date hour minute second nanos) := by
  cases h with
  | @usual s f second nanos hs hlt hf =>
    have hnanos := hf.lt
    refine ⟨s, f, second, nanos, rfl, hs, hf, ?_⟩
    intro d c date hour minute hd hc
    have hsecond : second ≠ 60 := by omega
    have hfields := ofFields?_ofClock hd hc hlt (by omega) (Or.inl hnanos)
    exact (if_neg hsecond).trans hfields
  | @leap s f nanos hs hf =>
    -- second 60 counts as second 59, with its fraction behind a whole second more
    have hnanos := hf.lt
    refine ⟨s, f, 60, nanos, rfl, hs, hf, ?_⟩
    intro d c date hour minute hd hc
    have hfields : Timestamp.ofFields? date.year date.month date.day hour minute 59
        (nanosPerSecond + nanos) = some (.ofClock date hour minute 59 (nanosPerSecond + nanos)) :=
      ofFields?_ofClock hd hc (by decide) (by omega) (Or.inr rfl)
    exact (if_pos rfl).trans hfields

theorem timestamp_of_some {year : Int} {month day hour minute second nanos : Nat} {t : Timestamp}
    (h : Reader.timestamp? year month day hour minute second nanos = some t) (rest : List Char) :
    (liftM (Reader.timestamp year month day hour minute second nanos) : Reader Timestamp) rest =
      .ok (t, rest) := by
  unfold Reader.timestamp
  rw [h]
  rfl

namespace Reader

/-- The strict form up to its minutes. -/
theorem strictFields_clock {d c : List Char} {t : Char} {date : Date} {hour minute : Nat}
    (hd : DateWritten d date) (ht : t ∈ ['T', 't', ' ']) (hc : ClockWritten c hour minute)
    (rest : List Char) :
    strictFields (d ++ t :: (c ++ rest)) =
      (do
        char ':'
        let second ← digits 2 2
        let nanos ← fraction
        let t ← timestamp date.year date.month date.day hour minute second nanos
        return (t, ← zuluOrOffset) : Reader (Timestamp × Int)) rest := by
  have hfields := date_ofFields? hd
  obtain ⟨hy, hmo, hda, -⟩ := hd
  obtain ⟨hh, hm, -, -⟩ := hc
  simp only [List.append_assoc, List.cons_append]
  unfold strictFields
  rw [bind_of_ok (digits_fixed hy (by decide) _), bind_of_ok (char_cons _ _),
    bind_of_ok (digits_fixed hmo (by decide) _), bind_of_ok (char_cons _ _),
    bind_of_ok (digits_fixed hda (by decide) _)]
  dsimp only at hfields ⊢
  -- there has to be such a day before the clock is read
  rw [hfields, if_neg (by simp), bind_of_ok (oneOf_cons ht _),
    bind_of_ok (digits_fixed hh (by decide) _), bind_of_ok (char_cons _ _),
    bind_of_ok (digits_fixed hm (by decide) _)]

/-- The strict form up to its offset. -/
theorem strictFields_second {d c s rest : List Char} {t : Char} {date : Date}
    {hour minute second nanos : Nat} (hd : DateWritten d date) (ht : t ∈ ['T', 't', ' '])
    (hc : ClockWritten c hour minute) (hs : SecondWritten s second nanos)
    (hrest : EndsFraction rest) :
    strictFields (d ++ t :: (c ++ (s ++ rest))) =
      (do return (.ofClock date hour minute second nanos, ← zuluOrOffset) :
        Reader (Timestamp × Int)) rest := by
  obtain ⟨y, f, n, k, rfl, hn, hf, hread⟩ := hs.exists_read
  have htime := hread hd hc
  rw [strictFields_clock hd ht hc, List.cons_append, bind_of_ok (char_cons _ _), List.append_assoc,
    bind_of_ok (digits_fixed hn (by decide) _), bind_of_ok (fraction_written hf hrest),
    bind_of_ok (timestamp_of_some htime _)]

theorem whole_of_ok {α : Type} {r : Reader α} {s : List Char} {a : α} (h : r s = .ok (a, [])) :
    r.whole s = .ok a := by
  show (r s >>= _) = _
  rw [h]
  rfl

theorem whole?_of_ok {α : Type} {r : Reader α} {s : List Char} {a : α} (h : r s = .ok (a, [])) :
    r.whole? s = some a := by
  unfold whole?
  rw [whole_of_ok h]
  rfl

theorem whole_of_error {α : Type} {r : Reader α} {s : List Char} {cause : Misread}
    (h : r s = .error cause) : r.whole s = .error cause := by
  show (r s >>= _) = _
  rw [h]
  rfl

theorem whole?_of_error {α : Type} {r : Reader α} {s : List Char} {cause : Misread}
    (h : r s = .error cause) : r.whole? s = none := by
  unfold whole?
  rw [whole_of_error h]
  rfl

theorem length_le_byteLength (s : List Char) : s.length ≤ byteLength s := by
  have hall (n : Nat) : n + s.length ≤ s.foldl (fun n c => n + c.utf8Size) n := by
    induction s generalizing n with
    | nil => exact Nat.le_refl _
    | cons c s ih =>
      have hc := c.utf8Size_pos
      have hs := ih (n + c.utf8Size)
      rw [List.length_cons, List.foldl_cons]
      omega
  have h := hall 0
  rwa [Nat.zero_add] at h

end Reader

/-- Years of four digits are far from the ends of the calendar. -/
theorem inRange_ofWall {s c : List Char} {d : Date} {hour minute second : Nat}
    (hd : DateWritten s d) (hc : ClockWritten c hour minute) (hs : second < 60) (nanos : Nat)
    {offset : Int} (ho : offset.natAbs < 86400) :
    (Moment.ofWall (.ofClock d hour minute second nanos) offset).utc.inRange = true := by
  obtain ⟨hlow, hhigh, hvalid⟩ := hd.bounds
  have hhour := hc.hour_lt
  have hminute := hc.minute_lt
  have hfirst : firstDay < d.toDays := by
    apply Date.toDays_lt_of_year_lt (by decide) hvalid
    show (-262143 : Int) < d.year
    omega
  have hlast : d.toDays < lastDay := by
    apply Date.toDays_lt_of_year_lt hvalid (by decide)
    show d.year < (262142 : Int)
    omega
  have hseconds : (Moment.ofWall (.ofClock d hour minute second nanos) offset).utc.seconds =
      d.toDays * 86400 + ((hour * 3600 + minute * 60 + second : Nat) : Int) - offset :=
    rfl
  unfold Timestamp.inRange secondsPerDay
  rw [hseconds, Bool.and_eq_true, decide_eq_true_eq, decide_eq_true_eq]
  omega

theorem DateWritten.length_eq {s : List Char} {d : Date} (h : DateWritten s d) : s.length = 10 := by
  obtain ⟨⟨-, hy⟩, ⟨-, hm⟩, ⟨-, hd⟩, -⟩ := h
  simp [hy, hm, hd]

theorem ClockWritten.length_eq {s : List Char} {hour minute : Nat}
    (h : ClockWritten s hour minute) : s.length = 5 := by
  obtain ⟨⟨-, hh⟩, ⟨-, hm⟩, -, -⟩ := h
  simp [hh, hm]

theorem SecondWritten.le_length {s : List Char} {second nanos : Nat}
    (h : SecondWritten s second nanos) : 3 ≤ s.length := by
  obtain ⟨y, f, n, k, rfl, ⟨-, hlen⟩, -⟩ := h.exists_read
  simp only [List.length_cons, List.length_append, hlen]
  omega

theorem Rfc3339.strictLength_le {s : List Char} {m : Moment} (h : Rfc3339 s m) :
    Reader.strictLength ≤ s.length := by
  obtain ⟨hd, -, hc, hs, -⟩ := h
  have hsecond := hs.le_length
  simp only [List.length_cons, List.length_append, hd.length_eq, hc.length_eq]
  show 19 ≤ _
  omega

/-- A text of the form is read as its moment. -/
theorem ofStrict?_of_rfc3339 {s : List Char} {m : Moment} (h : Rfc3339 s m) :
    Moment.ofStrict? s = some m := by
  have hbytes : ¬Reader.byteLength s < Reader.strictLength :=
    Nat.not_lt.2 (h.strictLength_le.trans (Reader.length_le_byteLength s))
  cases h with
  | @intro d c t o sep date hour minute second nanos offset hd hsep hc hs ho =>
    have hrange := inRange_ofWall hd hc hs.lt nanos ho.lt
    have hfields : Reader.strictFields (d ++ sep :: (c ++ (t ++ o))) =
        .ok ((.ofClock date hour minute second nanos, offset), []) := by
      rw [Reader.strictFields_second hd hsep hc hs ho.endsFraction,
        Reader.bind_of_ok (Reader.zuluOrOffset_written ho)]
      rfl
    have hmoment : Reader.moment (.ofClock date hour minute second nanos) offset =
        .ok (.ofWall (.ofClock date hour minute second nanos) offset) := by
      unfold Reader.moment Moment.ofWall? Moment.inRange?
      rw [if_pos ho.lt, if_pos hrange]
    -- the offset is applied when the whole text has been read
    unfold Moment.ofStrict? Moment.ofStrict
    rw [if_neg hbytes, Reader.whole_of_ok hfields]
    show (Reader.moment _ _).toOption = _
    rw [hmoment]
    rfl

/-- A second without a fraction. -/
theorem SecondWritten.ofFixed {s : List Char} {second : Nat} (h : FixedDigits 2 s second)
    (hlt : second < 60) : SecondWritten (':' :: s) second 0 := by
  have hwritten := SecondWritten.usual h hlt .none
  rwa [List.append_nil] at hwritten

theorem ofStrict?_of_error {s : List Char} {cause : Misread}
    (h : Reader.strictFields s = .error cause) : Moment.ofStrict? s = none := by
  unfold Moment.ofStrict? Moment.ofStrict
  rw [Reader.whole_of_error h]
  -- a text that is too short is not even looked at
  split <;> rfl

/-- Without an offset the strict form has not ended. -/
theorem ofStrict?_of_second {d c s : List Char} {t : Char} {date : Date}
    {hour minute second nanos : Nat} (hd : DateWritten d date) (ht : t ∈ ['T', 't', ' '])
    (hc : ClockWritten c hour minute) (hs : SecondWritten s second nanos) :
    Moment.ofStrict? (d ++ t :: (c ++ s)) = none := by
  have hread := Reader.strictFields_second hd ht hc hs Reader.endsFraction_nil
  rw [List.append_nil, Reader.bind_of_error Reader.zuluOrOffset_nil] at hread
  exact ofStrict?_of_error hread

theorem ofStrict?_of_wall {s : List Char} {t : Timestamp} (h : WallWritten s t) :
    Moment.ofStrict? s = none := by
  cases h with
  | @minute d c sep _ _ _ hd hsep hc =>
    have hmem : sep ∈ ['T', 't', ' '] := by
      rcases hsep with rfl | rfl
      · exact List.mem_cons_self
      · simp
    have hread := Reader.strictFields_clock hd hmem hc []
    rw [List.append_nil, Reader.bind_of_error (Reader.char_nil ':')] at hread
    exact ofStrict?_of_error hread
  | second hd hc hs => exact ofStrict?_of_second hd List.mem_cons_self hc hs
  | whole hd hc hs hlt => exact ofStrict?_of_second hd (by simp) hc (.ofFixed hs hlt)

namespace Reader

/-- The part of the text behind its hour and minute decides. -/
theorem dateTime_clock {d c rest : List Char} {t : Char} {date : Date} {hour minute : Nat}
    (hd : DateWritten d date) (hc : ClockWritten c hour minute) {separator : Reader Unit}
    (hsep : separator (t :: (c ++ rest)) = .ok ((), c ++ rest)) (seconds : Reader (Nat × Nat)) :
    dateTime separator seconds (d ++ t :: (c ++ rest)) =
      (do
        let (second, nanos) ← seconds
        timestamp date.year date.month date.day hour minute second nanos : Reader Timestamp)
        rest := by
  unfold dateTime
  rw [bind_of_ok (date_written hd _), bind_of_ok hsep, bind_of_ok (hourMinute_written hc _)]

theorem dateTime_written {d c rest : List Char} {t : Char} {date : Date}
    {hour minute second nanos n k : Nat} (hd : DateWritten d date) (hc : ClockWritten c hour minute)
    {separator : Reader Unit} (hsep : separator (t :: (c ++ rest)) = .ok ((), c ++ rest))
    {seconds : Reader (Nat × Nat)} (hseconds : seconds rest = .ok ((n, k), []))
    (htime : timestamp? date.year date.month date.day hour minute n k =
      some (.ofClock date hour minute second nanos)) :
    (dateTime separator seconds).whole? (d ++ t :: (c ++ rest)) =
      some (.ofClock date hour minute second nanos) := by
  apply whole?_of_ok
  rw [dateTime_clock hd hc hsep, bind_of_ok hseconds]
  exact timestamp_of_some htime []

/-- Forms with a `T` take no blank behind the date. -/
theorem dateTime_of_blank {d : List Char} {date : Date} (hd : DateWritten d date)
    (rest : List Char) (seconds : Reader (Nat × Nat)) :
    (dateTime (char 'T') seconds).whole? (d ++ ' ' :: rest) = none := by
  apply whole?_of_error
  unfold dateTime
  rw [bind_of_ok (date_written hd _), bind_of_error (char_of_ne (by decide) rest)]

theorem skip_blank {c : List Char} {hour minute : Nat} (hc : ClockWritten c hour minute)
    (rest : List Char) : skip isBlank (' ' :: (c ++ rest)) = .ok ((), c ++ rest) := by
  obtain ⟨hh, -, -, -⟩ := hc
  obtain ⟨first, tail, rfl, hdigit⟩ := hh.exists_cons
  have hblank : isBlank first = false := not_isBlank_of_isDigit hdigit
  unfold skip
  rw [List.dropWhile_cons_of_pos (by rfl)]
  simp only [List.cons_append]
  rw [List.dropWhile_cons_of_neg (by simp [hblank])]

theorem secondPart_written {s f : List Char} {n nanos : Nat} (hs : FixedDigits 2 s n)
    (hf : FractionWritten f nanos) : secondPart (':' :: (s ++ f)) = .ok ((n, nanos), []) := by
  have hread := fraction_written hf endsFraction_nil
  rw [List.append_nil] at hread
  unfold secondPart
  rw [bind_of_ok (char_cons _ _), bind_of_ok (field_fixed hs _), bind_of_ok hread]
  rfl

theorem wholeSecond_written {s : List Char} {n : Nat} (hs : FixedDigits 2 s n) :
    wholeSecond (':' :: s) = .ok ((n, 0), []) := by
  have hread := field_fixed hs []
  rw [List.append_nil] at hread
  unfold wholeSecond
  rw [bind_of_ok (char_cons _ _), bind_of_ok hread]
  rfl

end Reader

/-- A text of one of the forms is read as what it says: the forms that are tried before its own do
not take it. -/
theorem wallForms_written {s : List Char} {t : Timestamp} (h : WallWritten s t) :
    Schedule.wallForms.findSome? (·.whole? s) = some t := by
  unfold Schedule.wallForms
  cases h with
  | @minute d c sep date hour minute hd hsep hc =>
    have hnone : Reader.noSecond [] = .ok ((0, 0), []) := rfl
    have htime : Reader.timestamp? date.year date.month date.day hour minute 0 0 =
        some (.ofClock date hour minute 0 0) :=
      ofFields?_ofClock hd hc (by decide) (by decide) (Or.inl (by decide))
    rcases hsep with rfl | rfl
    · have hchar := Reader.char_cons 'T' (c ++ [])
      -- the first form looks for a colon behind the minute
      have hfirst : (Reader.dateTime (Reader.char 'T') Reader.secondPart).whole?
          (d ++ 'T' :: (c ++ [])) = none := by
        apply Reader.whole?_of_error
        rw [Reader.dateTime_clock hd hc hchar]
        rfl
      have hsecond := Reader.dateTime_written hd hc hchar hnone htime
      rw [List.append_nil] at hfirst hsecond
      simp only [List.findSome?_cons, hfirst, hsecond]
    · have hblank := Reader.skip_blank hc []
      have hthird : (Reader.dateTime (Reader.skip isBlank) Reader.wholeSecond).whole?
          (d ++ ' ' :: (c ++ [])) = none := by
        apply Reader.whole?_of_error
        rw [Reader.dateTime_clock hd hc hblank]
        rfl
      have hlast := Reader.dateTime_written hd hc hblank hnone htime
      rw [List.append_nil] at hthird hlast
      simp only [List.findSome?_cons, Reader.dateTime_of_blank hd, hthird, hlast]
  | @second d c s date hour minute second nanos hd hc hs =>
    obtain ⟨y, f, n, k, rfl, hn, hf, hread⟩ := hs.exists_read
    have hfirst := Reader.dateTime_written hd hc (Reader.char_cons 'T' _)
      (Reader.secondPart_written hn hf) (hread hd hc)
    simp only [List.findSome?_cons, hfirst]
  | @whole d c s date hour minute second hd hc hs hlt =>
    have hsecond : second ≠ 60 := by omega
    have htime : Reader.timestamp? date.year date.month date.day hour minute second 0 =
        some (.ofClock date hour minute second 0) :=
      (if_neg hsecond).trans (ofFields?_ofClock hd hc hlt (by decide) (Or.inl (by decide)))
    have hthird := Reader.dateTime_written hd hc (Reader.skip_blank hc _)
      (Reader.wholeSecond_written hs) htime
    simp only [List.findSome?_cons, Reader.dateTime_of_blank hd, hthird]

end Workflow.Time
