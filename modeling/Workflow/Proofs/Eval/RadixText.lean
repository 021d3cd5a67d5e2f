import Workflow.Eval.NumberMethods
import Workflow.Proofs.Eval.StringSearch
import Workflow.Proofs.Number.Exact
import Workflow.Proofs.Text.Radix

/-! Whole numbers written in a radix and read again: what is written has a sign and digits, and is read
back whatever follows that is no digit. -/
namespace Workflow.Number

open Text

/-- A whole number in a radix: the digits of its size, behind a minus if it is negative. -/
def radixText (radix : Nat) (n : Int) : List Char :=
  (if n < 0 then ['-'] else []) ++ ofNat radix n.natAbs

/-- The parts of a double that holds a whole number. Zero may have a minus, which does not count. -/
theorem Holds.parts {x : Float} {n : Int} (h : Holds x n) :
    ∃ negative m e, parts x = .finite negative m e ∧ wholePart m e = (n.natAbs, false) ∧
      (m = 0 ↔ n = 0) ∧ (negative = true ∧ n ≠ 0 ↔ n < 0) := by
  cases h with
  | zero => exact ⟨false, 0, -1074, rfl, wholePart_zero _, by simp, by simp⟩
  | negativeZero => exact ⟨true, 0, -1074, rfl, wholePart_zero _, by simp, by simp⟩
  | @whole sign k hp hk =>
    have hm := Nat.ne_of_gt (normal_of_nat hp hk).pos
    have hn : sign.apply k ≠ 0 := by
      rw [← Int.natAbs_ne_zero, natAbs_apply]
      exact Nat.ne_of_gt hp
    refine ⟨_, _, _, parts_ofNormal _ _, ?_, iff_of_false hm hn, ?_⟩
    · rw [natAbs_apply, wholePart_of_nat hk]
    · rw [and_iff_left hn]
      cases sign with
      | positive => exact iff_of_false nofun (Int.not_lt.2 (Int.le_of_lt (apply_pos hp)))
      | negative => exact iff_of_true rfl (apply_neg hp)

/-- Digits are put behind a minus if the number is negative. -/
theorem ofList_radixText {radix : Nat} {n : Int} {p : Prop} [Decidable p] (hp : p ↔ n < 0) :
    (if p then "-" ++ String.ofList (ofNat radix n.natAbs)
      else String.ofList (ofNat radix n.natAbs)) = String.ofList (radixText radix n) := by
  unfold radixText
  by_cases hn : n < 0
  · rw [if_pos (hp.2 hn), if_pos hn, String.ofList_append]
  · rw [if_neg (mt hp.1 hn), if_neg hn, List.nil_append]

theorem display_of_holds {x : Float} {n : Int} (h : Holds x n) :
    display x = String.ofList (radixText 10 n) := by
  obtain ⟨negative, m, e, hparts, hwhole, hm, hsign⟩ := h.parts
  have hlt : n.natAbs < 1_000_000_000_000_000_000_000 :=
    Nat.lt_of_le_of_lt h.natAbs_le (by decide)
  have hbody : (if m = 0 then "0" else toString n.natAbs) =
      String.ofList (ofNat 10 n.natAbs) := by
    rw [ofNat_ten, ← Nat.toString_eq_ofList_toDigits]
    split
    · rw [hm.1 ‹_›]
      rfl
    · rfl
  unfold display
  rw [hparts]
  dsimp only
  rw [hwhole]
  dsimp only
  rw [if_pos hlt, hbody]
  apply ofList_radixText
  rw [← hsign]
  exact and_congr_right fun _ => not_congr hm

/-- A whole number is written in a radix by its digits. -/
theorem inRadix_of_holds {x : Float} {n : Int} (h : Holds x n) (radix : Nat) :
    (inRadix? radix x).getD (display x) = String.ofList (radixText radix n) := by
  obtain ⟨negative, m, e, hparts, hwhole, -, hsign⟩ := h.parts
  unfold inRadix?
  rw [hparts]
  dsimp only
  rw [hwhole]
  dsimp only
  by_cases hten : radix = 10
  · rw [if_pos (Or.inl hten), Option.getD_none, display_of_holds h, hten]
  · rw [if_neg (not_or.2 ⟨hten, Nat.not_lt.2 h.natAbs_le⟩), Option.getD_some]
    apply ofList_radixText
    rw [← hsign]
    exact and_congr_right fun _ => Int.natAbs_ne_zero

section

variable {radix : Nat} (hr : 2 ≤ radix) (hr' : radix ≤ 36)
include hr hr'

/-- As long as the number is small enough, the sum of the digits is exact. -/
theorem foldl_digits {s : List Char} {a : Nat} (h : valueFrom radix a s ≤ maxSafe) :
    s.foldl (fun x c => x * Float.ofNat radix + Float.ofNat ((digit? radix c).getD 0))
      (Float.ofNat a) = Float.ofNat (valueFrom radix a s) := by
  have hpos : 0 < radix := Nat.lt_of_lt_of_le Nat.zero_lt_two hr
  have hsafe : radix ≤ maxSafe := Nat.le_trans hr' (by decide)
  induction s generalizing a with
  | nil => rfl
  | cons c s ih =>
    have hstep : a * radix + (digit? radix c).getD 0 ≤ maxSafe :=
      Nat.le_trans (le_valueFrom hpos _ s) h
    have hmul : a * radix ≤ maxSafe := Nat.le_trans (Nat.le_add_right _ _) hstep
    rw [List.foldl_cons, ofNat_mul hpos hsafe hmul, ofNat_add hstep]
    exact ih h

theorem leadingDigits?_ofNat {k : Nat} (hk : k ≤ maxSafe) {tail : List Char}
    (htail : ∀ c ∈ tail.head?, digit? radix c = none) :
    leadingDigits? radix (ofNat radix k ++ tail) = some (Float.ofNat k) := by
  have hdigits : ∀ c ∈ ofNat radix k, (digit? radix c).isSome = true :=
    fun c hc => isSome_digit?_of_mem hr' (mem_ofNat hr hr' hc)
  have htake : (ofNat radix k ++ tail).takeWhile (fun c => (digit? radix c).isSome) =
      ofNat radix k := by
    apply takeWhile_append_of_all _ hdigits
    intro c hc
    rw [htail c hc]
    rfl
  -- the digits are added up to the number that they write
  have hvalue : valueFrom radix 0 (ofNat radix k) = k := valueFrom_ofNat hr hr' k
  unfold leadingDigits?
  dsimp only
  rw [htake, if_neg (mt List.isEmpty_iff.1 (ofNat_ne_nil hr k))]
  refine congrArg some ?_
  have hsum := foldl_digits hr hr' (s := ofNat radix k) (a := 0) (by rwa [hvalue])
  rwa [hvalue] at hsum

/-- Digits are no sign, and no white space. -/
theorem head_ofNat {k : Nat} {tail : List Char} {c : Char} {rest : List Char}
    (h : ofNat radix k ++ tail = c :: rest) : isBlank c = false ∧ c ≠ '+' ∧ c ≠ '-' := by
  obtain ⟨d, s, hs⟩ := List.exists_cons_of_ne_nil (ofNat_ne_nil hr k)
  have hd : (digit? radix d).isSome = true := by
    apply isSome_digit?_of_mem hr' (mem_ofNat hr hr' (n := k) _)
    rw [hs]
    exact List.mem_cons_self
  rw [hs] at h
  obtain rfl := (List.cons.inj h).1
  refine ⟨not_isBlank_of_digit? hd, ?_, ?_⟩
  · rintro rfl
    cases hd
  · rintro rfl
    cases hd

theorem trimStart_radixText (n : Int) (tail : List Char) :
    trimStart (radixText radix n ++ tail) = radixText radix n ++ tail := by
  unfold trimStart
  apply dropWhile_eq_self
  intro c hc
  unfold radixText at hc
  split at hc
  · rw [← Option.some.inj hc]
    rfl
  · obtain ⟨rest, hrest⟩ := List.head?_eq_some_iff.1 hc
    exact (head_ofNat hr hr' hrest).1

/-- A reader of digits reads a number behind an optional sign. -/
theorem withSign_radixText {read : List Char → Option Float} {n : Int} {tail : List Char}
    (h : read (ofNat radix n.natAbs ++ tail) = some (Float.ofNat n.natAbs)) :
    withSign read (radixText radix n ++ tail) = some (ofInt n) := by
  unfold radixText ofInt
  by_cases hn : n < 0
  · rw [if_pos hn, if_pos hn]
    show (read (ofNat radix n.natAbs ++ tail)).map (-·) = _
    rw [h]
    rfl
  · rw [if_neg hn, if_neg hn, List.nil_append, withSign_of_no_sign, h]
    · exact fun rest heq => (head_ofNat hr hr' heq).2.1 rfl
    · exact fun rest heq => (head_ofNat hr hr' heq).2.2 rfl

end

/-- No digits look like the mark of hexadecimal digits, unless an x follows zero. -/
theorem dropHexMark_ofNat {k : Nat} {tail : List Char}
    (hmark : k = 0 → ∀ c ∈ tail.head?, c ≠ 'x' ∧ c ≠ 'X') :
    dropHexMark (ofNat 16 k ++ tail) = none := by
  have hno {x : Char} {rest : List Char} (hx : x = 'x' ∨ x = 'X') :
      ofNat 16 k ++ tail ≠ '0' :: x :: rest := by
    intro heq
    have hzero : k = 0 := by
      apply eq_zero_of_head?_ofNat (by decide : 2 ≤ 16) (by decide)
      rw [← List.head?_append_of_ne_nil _ (ofNat_ne_nil (by decide) k), heq]
      rfl
    subst hzero
    have htail : tail = x :: rest := (List.cons.inj heq).2
    have := hmark rfl x (htail ▸ rfl)
    rcases hx with rfl | rfl
    · exact this.1 rfl
    · exact this.2 rfl
  unfold dropHexMark
  split
  · exact absurd ‹_› (hno (Or.inl rfl))
  · exact absurd ‹_› (hno (Or.inr rfl))
  · rfl

theorem toInt?_ofNat {k : Nat} (hk : k ≤ maxSafe) : toInt? (Float.ofNat k) = some (k : Int) := by
  obtain ⟨m, e, hparts, hwhole⟩ := parts_ofNat hk
  unfold toInt?
  rw [hparts]
  dsimp only
  rw [hwhole]
  rfl

/-- A number is read in the radix it is written in, whatever follows that is no digit. -/
theorem leadingInt_radixText {radix : Nat} (hr : 2 ≤ radix) (hr' : radix ≤ 36) {n : Int}
    (hn : n.natAbs ≤ maxSafe) {tail : List Char} (htail : ∀ c ∈ tail.head?, digit? radix c = none)
    (hmark : radix = 16 → n = 0 → ∀ c ∈ tail.head?, c ≠ 'x' ∧ c ≠ 'X') :
    leadingInt (radixText radix n ++ tail) (some (Float.ofNat radix)) = ofInt n := by
  have hsafe : radix ≤ maxSafe := Nat.le_trans hr' (by decide)
  unfold leadingInt
  dsimp only
  rw [toInt?_ofNat hsafe, trimStart_radixText hr hr']
  -- of the radixes only those from 2 on are left
  split
  · cases ‹some (radix : Int) = none›
  · have hzero : (radix : Int) = 0 := Option.some.inj ‹_›
    omega
  · rename_i r _ hradix
    obtain rfl : (radix : Int) = r := Option.some.inj hradix
    have hmarkless : (if decide ((radix : Int) = 16) = true then
        dropHexMark (ofNat radix n.natAbs ++ tail) else none) = none := by
      split
      · rename_i hsixteen
        obtain rfl : radix = 16 := Int.ofNat.inj (of_decide_eq_true hsixteen)
        exact dropHexMark_ofNat fun hzero => hmark rfl (Int.natAbs_eq_zero.1 hzero)
      · rfl
    rw [if_pos (by omega), withSign_radixText hr hr', Option.getD_some]
    rw [hmarkless]
    exact leadingDigits?_ofNat hr hr' hn htail

end Workflow.Number

namespace Workflow.Eval

open Number Text

/-- Digits that write a number, with no zero in front. -/
structure WholeDigits (radix n : Nat) (digits : List Char) : Prop where
  nonempty : digits ≠ []
  digit : ∀ c ∈ digits, c ∈ radixDigits.take radix
  leading : digits.head? = some '0' → n = 0 ∧ digits = ['0']

theorem wholeDigits_ofNat {radix : Nat} (hr : 2 ≤ radix) (hr' : radix ≤ 36) (n : Nat) :
    WholeDigits radix n (Text.ofNat radix n) := by
  refine ⟨ofNat_ne_nil hr n, fun c => mem_ofNat hr hr', fun h => ?_⟩
  obtain rfl := eq_zero_of_head?_ofNat hr hr' h
  exact ⟨rfl, rfl⟩

theorem toString_in_radix {x : Float} {n : Int} (hx : Holds x n) {radix : Nat} (hr : 2 ≤ radix)
    (hr' : radix ≤ 36) : numberMethod x .toString [.number (Float.ofNat radix)] =
      pure (.string (String.ofList (radixText radix n))) := by
  have hsafe : radix ≤ maxSafe := Nat.le_trans hr' (by decide)
  have hrange : ¬(Float.ofNat radix < 2.0 ∨ 36.0 < Float.ofNat radix) := by
    have hall : ∀ r < 37, 2 ≤ r → ¬(Float.ofNat r < 2.0 ∨ 36.0 < Float.ofNat r) := by decide
    exact hall radix (Nat.lt_succ_of_le hr') hr
  show (if (Value.ofNat radix).toInteger < 2.0 ∨ 36.0 < (Value.ofNat radix).toInteger then _
    else (pure (.string ((inRadix? (clampNat 36 (Value.ofNat radix).toInteger) x).getD
      (display x))) : EvalM Value)) = _
  rw [toInteger_ofNat hsafe, if_neg hrange, clampNat_ofNat hsafe, Nat.min_eq_left hr',
    inRadix_of_holds hx]

theorem parseInt_radixText {n : Int} (hn : n.natAbs ≤ maxSafe) {radix : Nat} (hr : 2 ≤ radix)
    (hr' : radix ≤ 36) {tail : List Char} (htail : ∀ c ∈ tail.head?, digit? radix c = none)
    (hmark : radix = 16 → n = 0 → ∀ c ∈ tail.head?, c ≠ 'x' ∧ c ≠ 'X') (call : Caller) :
    Native.apply call .parseInt
      [.string (String.ofList (radixText radix n ++ tail)), .number (Float.ofNat radix)] =
        pure (.number (ofInt n)) := by
  have hread := leadingInt_radixText hr hr' hn htail hmark
  show (pure (.number (leadingInt
    (Value.display (.string (String.ofList (radixText radix n ++ tail)))).toList
      (some (Float.ofNat radix)))) : EvalM Value) = _
  rw [display_string, String.toList_ofList, hread]

/-- What is written in a radix has a minus exactly if it is negative, and digits of that radix behind
it. It is read back in that radix, whatever follows that is no digit; but for the zero of radix 16 that
is no x, which would make it the mark of hexadecimal digits. -/
theorem radix_text_read_back {n : Int} (hn : n.natAbs ≤ maxSafe) {x : Float}
    (hx : x = ofInt n ∨ n = 0 ∧ x = -0.0) {radix : Nat} (hr : 2 ≤ radix) (hr' : radix ≤ 36) :
    ∃ digits text, text = (if n < 0 then ['-'] else []) ++ digits ∧
      WholeDigits radix n.natAbs digits ∧
      numberMethod x .toString [.number (Float.ofNat radix)] =
        pure (.string (String.ofList text)) ∧
      ∀ (call : Caller) (tail : List Char), (∀ c ∈ tail.head?, digit? radix c = none) →
        (radix = 16 → n = 0 → ∀ c ∈ tail.head?, c ≠ 'x' ∧ c ≠ 'X') →
          Native.apply call .parseInt
            [.string (String.ofList (text ++ tail)), .number (Float.ofNat radix)] =
              pure (.number (ofInt n)) := by
  have hholds : Holds x n := by
    rcases hx with rfl | ⟨rfl, rfl⟩
    · exact holds_ofInt hn
    · exact .negativeZero
  refine ⟨Text.ofNat radix n.natAbs, radixText radix n, rfl, wholeDigits_ofNat hr hr' _,
    toString_in_radix hholds hr hr', ?_⟩
  intro call tail htail hmark
  exact parseInt_radixText hn hr hr' htail hmark call

/-- An x behind another hexadecimal number is no mark. -/
theorem radix_text_read_back_hex : ((-255 : Int).natAbs ≤ maxSafe ∧ digit? 16 'x' = none) ∧
    ∃ digits, WholeDigits 16 255 digits ∧
      numberMethod (ofInt (-255)) .toString [.number (Float.ofNat 16)] =
        pure (.string (String.ofList ('-' :: digits))) ∧
      ∀ call : Caller, Native.apply call .parseInt
        [.string (String.ofList ('-' :: digits ++ ['x', '7'])), .number (Float.ofNat 16)] =
          pure (.number (ofInt (-255))) := by
  refine ⟨by decide, ?_⟩
  obtain ⟨digits, _, rfl, hdigits, hwritten, hread⟩ :=
    radix_text_read_back (n := -255) (by decide) (Or.inl rfl) (by decide : 2 ≤ 16) (by decide)
  refine ⟨digits, hdigits, hwritten, fun call => hread call ['x', '7'] ?_ ?_⟩
  · intro c hc
    obtain rfl : 'x' = c := Option.some.inj hc
    decide
  · exact fun _ hzero => absurd hzero (by decide)

/-- Behind zero it is one, with no digits after it. -/
theorem not_radix_text_read_back_mark :
    numberMethod (ofInt 0) .toString [.number (Float.ofNat 16)] = pure (.string "0") ∧
      digit? 16 'x' = none ∧
        (leadingInt ("0".toList ++ ['x']) (some (Float.ofNat 16))).isNaN = true := by
  refine ⟨?_, by decide, by decide +kernel⟩
  exact toString_in_radix (holds_ofInt (by decide)) (by decide) (by decide)

end Workflow.Eval
