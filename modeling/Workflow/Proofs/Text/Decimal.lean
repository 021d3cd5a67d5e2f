import Mathlib.Tactic.Common
import Workflow.Number.Literal

/-! Whole numbers in decimal form, the usual one or with zeros in front, and texts that trimming leaves
as they are. -/
namespace Workflow.Text

theorem toList_toString (n : Nat) : (toString n).toList = Nat.toDigits 10 n := by
  rw [Nat.toString_eq_ofList_toDigits, String.toList_ofList]

theorem toString_ne_nil (n : Nat) : (toString n).toList ≠ [] := by
  rw [toList_toString]
  exact Nat.toDigits_ne_nil

theorem isDigit_of_mem_toString {n : Nat} {c : Char} (h : c ∈ (toString n).toList) :
    Number.isDigit c = true := by
  rw [toList_toString] at h
  exact Nat.isDigit_of_mem_toDigits (by decide) (by decide) h

theorem toNat_of_isDigit {c : Char} (h : Number.isDigit c = true) :
    48 ≤ c.toNat ∧ c.toNat ≤ 57 := by
  simp only [Number.isDigit, Bool.and_eq_true, decide_eq_true_eq] at h
  exact h

theorem not_isBlank_of_isDigit {c : Char} (h : Number.isDigit c = true) : isBlank c = false := by
  obtain ⟨hl, hu⟩ := toNat_of_isDigit h
  simp only [isBlank, Bool.or_eq_false_iff, Bool.and_eq_false_iff, decide_eq_false_iff_not]
  omega

theorem digit?_of_isDigit {c : Char} (h : Number.isDigit c = true) :
    digit? 10 c = some (c.toNat - '0'.toNat) := by
  obtain ⟨hl, hu⟩ := toNat_of_isDigit h
  have hlt : c.toNat - '0'.toNat < 10 := by
    show c.toNat - 48 < 10
    omega
  unfold digit?
  rw [if_pos ⟨hl, hu⟩, Option.filter_some, if_pos (by simpa using hlt)]

theorem foldlM_digits {s : List Char} (h : ∀ c ∈ s, Number.isDigit c = true) (n : Nat) :
    s.foldlM (fun n c => (digit? 10 c).map (n * 10 + ·)) n = some (Nat.ofDigitChars 10 s n) := by
  induction s generalizing n with
  | nil => rfl
  | cons c s ih =>
    obtain ⟨hc, hs⟩ := List.forall_mem_cons.1 h
    rw [List.foldlM_cons, digit?_of_isDigit hc, Nat.ofDigitChars_cons, Nat.mul_comm]
    exact ih hs _

theorem digits?_toString (n : Nat) : digits? 10 (toString n).toList = some n := by
  unfold digits?
  rw [if_neg (by simp),
    foldlM_digits (fun c => isDigit_of_mem_toString), toList_toString, Nat.ofDigitChars_ten_toDigits]

theorem toString_inj {m n : Nat} : toString m = toString n ↔ m = n := by
  constructor
  · intro h
    have hdigits := digits?_toString m
    rw [h, digits?_toString] at hdigits
    exact (Option.some.inj hdigits).symm
  · rintro rfl
    rfl

theorem not_mem_toString {c : Char} (hc : Number.isDigit c = false) (n : Nat) :
    c ∉ (toString n).toList := by
  intro hmem
  rw [isDigit_of_mem_toString hmem] at hc
  exact absurd hc (by simp)

theorem dropWhile_eq_self {α : Type} {p : α → Bool} {l : List α} (h : ∀ a ∈ l.head?, p a = false) :
    l.dropWhile p = l := by
  cases l with
  | nil => rfl
  | cons a l => rw [List.dropWhile_cons_of_neg (by simpa using h a rfl)]

theorem takeWhile_eq_nil {α : Type} {p : α → Bool} {l : List α} (h : ∀ a ∈ l.head?, p a = false) :
    l.takeWhile p = [] := by
  cases l with
  | nil => rfl
  | cons a l => rw [List.takeWhile_cons_of_neg (by simpa using h a rfl)]

section

variable {α : Type} {p : α → Bool} {s rest : List α} (h : ∀ c ∈ rest.head?, p c = false)
include h

theorem takeWhile_append_of_head : (s ++ rest).takeWhile p = s.takeWhile p := by
  rw [List.takeWhile_append, takeWhile_eq_nil h, List.append_nil]
  split
  · rename_i hs
    have hstart : s.takeWhile p <+: s := List.takeWhile_prefix p
    exact (hstart.eq_of_length hs).symm
  · rfl

theorem dropWhile_append_of_head : (s ++ rest).dropWhile p = s.dropWhile p ++ rest := by
  rw [List.dropWhile_append, dropWhile_eq_self h]
  split
  · rename_i hs
    rw [List.isEmpty_iff.1 hs, List.nil_append]
  · rfl

theorem takeWhile_append_of_all (hs : ∀ a ∈ s, p a = true) : (s ++ rest).takeWhile p = s := by
  rw [List.takeWhile_append_of_pos hs, takeWhile_eq_nil h, List.append_nil]

theorem dropWhile_append_of_all (hs : ∀ a ∈ s, p a = true) : (s ++ rest).dropWhile p = rest := by
  rw [List.dropWhile_append_of_pos hs, dropWhile_eq_self h]

end

theorem trim_eq_self {s : List Char} (hs : ∀ c ∈ s.head?, isBlank c = false)
    (he : ∀ c ∈ s.getLast?, isBlank c = false) : trim s = s := by
  unfold trim trimStart trimEnd
  rw [dropWhile_eq_self hs, dropWhile_eq_self (by simpa using he), List.reverse_reverse]

theorem digit?_of_not_digit {c : Char} (h : Number.isDigit c = false) : digit? 10 c = none := by
  have hd : ¬('0' ≤ c ∧ c ≤ '9') := by
    simpa only [Number.isDigit, ← Bool.not_eq_true, Bool.and_eq_true, decide_eq_true_eq] using h
  unfold digit?
  dsimp only
  rw [if_neg hd]
  -- letters stand for ten and more
  split
  · rw [Option.filter_some, if_neg (by simp)]
  · split
    · rw [Option.filter_some, if_neg (by simp)]
    · rfl

/-- Digits alone begin with a digit. -/
theorem digits?_of_not_digit {c : Char} (h : Number.isDigit c = false) (s : List Char) :
    digits? 10 (c :: s) = none := by
  unfold digits?
  rw [if_neg (by simp), List.foldlM_cons, digit?_of_not_digit h]
  rfl

theorem unsigned?_of_ne_plus {c : Char} (hp : c ≠ '+') (radix bound : Nat) (s : List Char) :
    unsigned? radix bound (c :: s) = (digits? radix (c :: s)).filter (· < bound) := by
  unfold unsigned?
  split
  · rename_i he
    exact absurd (List.cons.inj he).1 hp
  · rfl

theorem unsigned?_toString (n bound : Nat) :
    unsigned? 10 bound (toString n).toList = (some n).filter (· < bound) := by
  have hd := digits?_toString n
  have hmem := fun c => isDigit_of_mem_toString (n := n) (c := c)
  revert hd hmem
  cases (toString n).toList with
  | nil => exact fun hd => absurd hd nofun
  | cons c s =>
    intro hd hmem
    have hp : c ≠ '+' := by
      rintro rfl
      exact absurd (hmem '+' List.mem_cons_self) (by decide)
    rw [unsigned?_of_ne_plus hp, hd]

/-- A number begins with a digit or a plus. -/
theorem unsigned?_of_not_digit {c : Char} (hp : c ≠ '+') (hd : Number.isDigit c = false)
    (bound : Nat) (s : List Char) : unsigned? 10 bound (c :: s) = none := by
  rw [unsigned?_of_ne_plus hp, digits?_of_not_digit hd]
  rfl

theorem radixLoop_ten {n : Nat} (hn : 0 < n) (tail : List Char) :
    radixLoop 10 n tail = Nat.toDigits 10 n ++ tail := by
  have hchar : ∀ d < 10, digitChar d = Nat.digitChar d := by decide
  induction n using Nat.strongRecOn generalizing tail with
  | ind n ih =>
    have hlast : digitChar (n % 10) = Nat.digitChar (n % 10) := hchar _ (Nat.mod_lt n (by decide))
    rw [radixLoop, dif_neg (by omega), hlast]
    by_cases hsmall : n < 10
    · have hdiv : n / 10 = 0 := Nat.div_eq_of_lt hsmall
      rw [hdiv, radixLoop, dif_pos (Or.inl rfl), Nat.mod_eq_of_lt hsmall,
        Nat.toDigits_of_lt_base hsmall]
      rfl
    · have hle : 10 ≤ n := Nat.le_of_not_lt hsmall
      have hpos : 0 < n / 10 := Nat.div_pos hle (by decide)
      have hlt : n / 10 < n := Nat.div_lt_self hn (by decide)
      rw [ih _ hlt hpos, Nat.toDigits_of_base_le (by decide) hle, List.append_assoc]
      rfl

theorem ofNat_ten (n : Nat) : ofNat 10 n = Nat.toDigits 10 n := by
  unfold ofNat
  by_cases hn : n = 0
  · rw [if_pos hn, hn]
    rfl
  · rw [if_neg hn, radixLoop_ten (Nat.pos_of_ne_zero hn), List.append_nil]

/-- Digits, at least one, and the number that they write. -/
def Digits (s : List Char) (n : Nat) : Prop :=
  s ≠ [] ∧ (∀ c ∈ s, Number.isDigit c = true) ∧ Nat.ofDigitChars 10 s 0 = n

theorem isDigit_of_foldlM {s : List Char} {m n : Nat}
    (h : s.foldlM (fun n c => (digit? 10 c).map (n * 10 + ·)) m = some n) :
    ∀ c ∈ s, Number.isDigit c = true := by
  induction s generalizing m with
  | nil => exact List.forall_mem_nil _
  | cons c s ih =>
    rw [List.foldlM_cons] at h
    obtain ⟨k, hk, h⟩ := Option.bind_eq_some_iff.1 h
    refine List.forall_mem_cons.2 ⟨?_, ih h⟩
    by_contra hc
    rw [digit?_of_not_digit (Bool.eq_false_iff.2 hc)] at hk
    exact absurd hk (by simp)

theorem digits?_eq_some_iff {s : List Char} {n : Nat} : digits? 10 s = some n ↔ Digits s n := by
  unfold digits? Digits
  by_cases hs : s = []
  · subst hs
    simp
  · rw [if_neg (by simpa using hs)]
    constructor
    · intro h
      have hd := isDigit_of_foldlM h
      rw [foldlM_digits hd] at h
      exact ⟨hs, hd, Option.some.inj h⟩
    · rintro ⟨-, hd, rfl⟩
      exact foldlM_digits hd 0

theorem Digits.not_mem {s : List Char} {n : Nat} (h : Digits s n) {c : Char}
    (hc : Number.isDigit c = false) : c ∉ s := by
  intro hm
  rw [h.2.1 c hm] at hc
  exact absurd hc (by simp)

theorem digits_ofNat (n : Nat) : Digits (ofNat 10 n) n := by
  rw [ofNat_ten]
  refine ⟨Nat.toDigits_ne_nil, fun c hc => ?_, Nat.ofDigitChars_ten_toDigits⟩
  exact Nat.isDigit_of_mem_toDigits (by decide) (by decide) hc

/-- Zeros in front do not count. -/
theorem digits_padded (width n : Nat) : Digits (padded width n).toList n := by
  obtain ⟨hne, hdigits, hvalue⟩ := digits_ofNat n
  unfold padded padLeft
  rw [String.toList_ofList]
  refine ⟨List.append_ne_nil_of_right_ne_nil _ hne, ?_, ?_⟩
  · intro c hc
    rcases List.mem_append.1 hc with hzero | hc
    · rw [List.eq_of_mem_replicate hzero]
      rfl
    · exact hdigits c hc
  · rw [Nat.ofDigitChars_append, Nat.ofDigitChars_replicate_zero, Nat.mul_zero, hvalue]

theorem padded_inj {width m n : Nat} (h : padded width m = padded width n) : m = n := by
  have hm := digits_padded width m
  rw [h] at hm
  exact hm.2.2.symm.trans (digits_padded width n).2.2

end Workflow.Text
