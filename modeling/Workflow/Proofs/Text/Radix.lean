import Mathlib.Tactic.Common
import Workflow.Proofs.Number.Literal
import Workflow.Proofs.Text.Decimal

/-! Whole numbers in a radix up to 36: the digits that are written for one are read as its digits, and
an optional sign in front of digits. -/
namespace Workflow.Text

/-- The digits of all radixes up to 36, in the order of their values. -/
def radixDigits : List Char :=
  "0123456789abcdefghijklmnopqrstuvwxyz".toList

theorem digitChar_mem {radix d : Nat} (hd : d < radix) (hr : radix ≤ 36) :
    digitChar d ∈ radixDigits.take radix := by
  have hchar : ∀ d < 36, radixDigits[d]? = some (digitChar d) := by decide
  refine List.mem_iff_getElem?.2 ⟨d, ?_⟩
  rw [List.getElem?_take_of_lt hd]
  exact hchar d (Nat.lt_of_lt_of_le hd hr)

theorem digit?_digitChar {radix d : Nat} (hd : d < radix) (hr : radix ≤ 36) :
    digit? radix (digitChar d) = some d := by
  -- the value of a character does not depend on the radix, which only bounds it
  have hall : ∀ d < 36, digit? 36 (digitChar d) = some d := by decide
  have hvalue := hall d (Nat.lt_of_lt_of_le hd hr)
  unfold digit? at hvalue ⊢
  rw [Option.filter_eq_some_iff] at hvalue ⊢
  exact ⟨hvalue.1, by simpa using hd⟩

theorem digitChar_eq_zero {d : Nat} (hd : d < 36) (h : digitChar d = '0') : d = 0 := by
  have hall : ∀ d < 36, digitChar d = '0' → d = 0 := by decide
  exact hall d hd h

theorem not_isBlank_of_digit? {radix : Nat} {c : Char} (h : (digit? radix c).isSome = true) :
    isBlank c = false := by
  have hrange : 48 ≤ c.toNat ∧ c.toNat ≤ 122 := by
    by_contra hout
    have hd : ¬('0' ≤ c ∧ c ≤ '9') := fun hc => hout ⟨hc.1, Nat.le_trans hc.2 (by decide)⟩
    have hl : ¬('a' ≤ c ∧ c ≤ 'z') := fun hc => hout ⟨Nat.le_trans (by decide) hc.1, hc.2⟩
    have hu : ¬('A' ≤ c ∧ c ≤ 'Z') :=
      fun hc => hout ⟨Nat.le_trans (by decide) hc.1, Nat.le_trans hc.2 (by decide)⟩
    unfold digit? at h
    rw [if_neg hd, if_neg hl, if_neg hu] at h
    cases h
  simp only [isBlank, Bool.or_eq_false_iff, Bool.and_eq_false_iff, decide_eq_false_iff_not]
  omega

/-- The number that digits write behind those of `n`. -/
def valueFrom (radix n : Nat) (s : List Char) : Nat :=
  s.foldl (fun n c => n * radix + (digit? radix c).getD 0) n

theorem valueFrom_append (radix n : Nat) (s t : List Char) :
    valueFrom radix n (s ++ t) = valueFrom radix (valueFrom radix n s) t :=
  List.foldl_append

theorem le_valueFrom {radix : Nat} (hr : 0 < radix) (n : Nat) (s : List Char) :
    n ≤ valueFrom radix n s := by
  induction s generalizing n with
  | nil => exact Nat.le_refl n
  | cons c s ih =>
    calc n ≤ n * radix := Nat.le_mul_of_pos_right n hr
      _ ≤ n * radix + (digit? radix c).getD 0 := Nat.le_add_right _ _
      _ ≤ valueFrom radix n (c :: s) := ih _

theorem foldlM_digit? {radix : Nat} {s : List Char} (hs : ∀ c ∈ s, (digit? radix c).isSome = true)
    (n : Nat) : s.foldlM (fun n c => (digit? radix c).map (n * radix + ·)) n =
      some (valueFrom radix n s) := by
  induction s generalizing n with
  | nil => rfl
  | cons c s ih =>
    obtain ⟨hc, hs⟩ := List.forall_mem_cons.1 hs
    obtain ⟨d, hd⟩ := Option.isSome_iff_exists.1 hc
    have hvalue : valueFrom radix n (c :: s) = valueFrom radix (n * radix + d) s := by
      show valueFrom radix (n * radix + (digit? radix c).getD 0) s = _
      rw [hd]
      rfl
    rw [List.foldlM_cons, hd, hvalue]
    exact ih hs _

/-- Digits alone, at least one, are what stands for a number. -/
theorem exists_digits?_iff {radix : Nat} {s : List Char} :
    (∃ n, digits? radix s = some n) ↔ s ≠ [] ∧ ∀ c ∈ s, (digit? radix c).isSome = true := by
  constructor
  · rintro ⟨n, hn⟩
    refine ⟨?_, fun c hc => ?_⟩
    · rintro rfl
      cases hn
    · by_contra hd
      rw [digits?_of_mem hc (Option.not_isSome_iff_eq_none.1 hd)] at hn
      cases hn
  · rintro ⟨hne, hs⟩
    unfold digits?
    rw [if_neg (mt List.isEmpty_iff.1 hne), foldlM_digit? hs]
    exact ⟨_, rfl⟩

section

variable {radix : Nat}

/-- The loop puts the digits of a number in front of the text. -/
theorem radixLoop_append (n : Nat) (tail : List Char) :
    radixLoop radix n tail = radixLoop radix n [] ++ tail := by
  induction n using Nat.strongRecOn generalizing tail with
  | ind n ih =>
    by_cases hstop : n = 0 ∨ radix < 2
    · have hnil (tail : List Char) : radixLoop radix n tail = tail := by
        rw [radixLoop, dif_pos hstop]
      rw [hnil, hnil]
      rfl
    · have hlt : n / radix < n := Nat.div_lt_self (by omega) (by omega)
      have hloop (tail : List Char) : radixLoop radix n tail =
          radixLoop radix (n / radix) [] ++ digitChar (n % radix) :: tail := by
        rw [radixLoop, dif_neg hstop, ih _ hlt]
      rw [hloop, hloop, List.append_assoc]
      rfl

theorem radixLoop_of_pos {n : Nat} (hn : 0 < n) (hr : 2 ≤ radix) :
    radixLoop radix n [] = radixLoop radix (n / radix) [] ++ [digitChar (n % radix)] := by
  rw [radixLoop, dif_neg (by omega), radixLoop_append]

theorem radixLoop_zero : radixLoop radix 0 [] = [] := by
  rw [radixLoop, dif_pos (Or.inl rfl)]

theorem radixLoop_ne_nil {n : Nat} (hn : 0 < n) (hr : 2 ≤ radix) : radixLoop radix n [] ≠ [] := by
  rw [radixLoop_of_pos hn hr]
  exact List.append_ne_nil_of_right_ne_nil _ (List.cons_ne_nil _ _)

/-- An induction on the digits of a number from its first one on. -/
theorem radix_induction {motive : Nat → Prop} (hr : 2 ≤ radix) (zero : motive 0)
    (digit : ∀ n, 0 < n → motive (n / radix) → motive n) (n : Nat) : motive n := by
  induction n using Nat.strongRecOn with
  | ind n ih =>
    rcases Nat.eq_zero_or_pos n with rfl | hn
    · exact zero
    · exact digit n hn (ih _ (Nat.div_lt_self hn (by omega)))

theorem mem_radixLoop (hr : 2 ≤ radix) (hr' : radix ≤ 36) {n : Nat} {c : Char}
    (hc : c ∈ radixLoop radix n []) : c ∈ radixDigits.take radix := by
  induction n using radix_induction hr with
  | zero =>
    rw [radixLoop_zero] at hc
    exact absurd hc List.not_mem_nil
  | digit n hn ih =>
    rw [radixLoop_of_pos hn hr] at hc
    rcases List.mem_append.1 hc with hc | hc
    · exact ih hc
    · rw [List.mem_singleton.1 hc]
      exact digitChar_mem (Nat.mod_lt n (by omega)) hr'

theorem valueFrom_radixLoop (hr : 2 ≤ radix) (hr' : radix ≤ 36) (n : Nat) :
    valueFrom radix 0 (radixLoop radix n []) = n := by
  induction n using radix_induction hr with
  | zero =>
    rw [radixLoop_zero]
    rfl
  | digit n hn ih =>
    have hlast := digit?_digitChar (Nat.mod_lt n (Nat.lt_of_lt_of_le Nat.zero_lt_two hr)) hr'
    rw [radixLoop_of_pos hn hr, valueFrom_append, ih]
    show n / radix * radix + (digit? radix (digitChar (n % radix))).getD 0 = n
    rw [hlast]
    exact Nat.div_add_mod' n radix

/-- The first digit of a positive number is not zero. -/
theorem head?_radixLoop (hr : 2 ≤ radix) (hr' : radix ≤ 36) (n : Nat) :
    (radixLoop radix n []).head? ≠ some '0' := by
  induction n using radix_induction hr with
  | zero =>
    rw [radixLoop_zero]
    exact nofun
  | digit n hn ih =>
    rw [radixLoop_of_pos hn hr]
    rcases Nat.eq_zero_or_pos (n / radix) with hz | hp
    · -- a single digit is the number itself
      have hlt : n < radix := (Nat.div_eq_zero_iff_lt (by omega)).1 hz
      rw [hz, radixLoop_zero, Nat.mod_eq_of_lt hlt]
      intro hzero
      have hn0 := digitChar_eq_zero (Nat.lt_of_lt_of_le hlt hr') (Option.some.inj hzero)
      exact Nat.ne_of_gt hn hn0
    · obtain ⟨c, s, hs⟩ := List.exists_cons_of_ne_nil (radixLoop_ne_nil hp hr)
      rw [hs] at ih ⊢
      exact ih

theorem mem_ofNat (hr : 2 ≤ radix) (hr' : radix ≤ 36) {n : Nat} {c : Char}
    (hc : c ∈ ofNat radix n) : c ∈ radixDigits.take radix := by
  unfold ofNat at hc
  split at hc
  · rw [List.mem_singleton.1 hc]
    exact digitChar_mem (d := 0) (by omega) hr'
  · exact mem_radixLoop hr hr' hc

theorem ofNat_ne_nil (hr : 2 ≤ radix) (n : Nat) : ofNat radix n ≠ [] := by
  unfold ofNat
  split
  · exact List.cons_ne_nil _ _
  · exact radixLoop_ne_nil (by omega) hr

theorem valueFrom_ofNat (hr : 2 ≤ radix) (hr' : radix ≤ 36) (n : Nat) :
    valueFrom radix 0 (ofNat radix n) = n := by
  unfold ofNat
  split
  · rename_i hn
    have hzero : digit? radix '0' = some 0 := digit?_digitChar (d := 0) (by omega) hr'
    show 0 * radix + (digit? radix '0').getD 0 = n
    rw [hzero, hn]
    exact Nat.zero_mul radix
  · exact valueFrom_radixLoop hr hr' n

/-- Only zero begins with the digit zero. -/
theorem eq_zero_of_head?_ofNat (hr : 2 ≤ radix) (hr' : radix ≤ 36) {n : Nat}
    (h : (ofNat radix n).head? = some '0') : n = 0 := by
  unfold ofNat at h
  split at h
  · assumption
  · exact absurd h (head?_radixLoop hr hr' n)

end

theorem isSome_digit?_of_mem {radix : Nat} (hr : radix ≤ 36) {c : Char}
    (hc : c ∈ radixDigits.take radix) : (digit? radix c).isSome = true := by
  obtain ⟨d, hd⟩ := List.mem_iff_getElem?.1 hc
  obtain ⟨hlt, -⟩ := List.getElem?_eq_some_iff.1 hd
  have hdr : d < radix := Nat.lt_of_lt_of_le hlt (List.length_take_le _ _)
  have hchar : ∀ d < 36, radixDigits[d]? = some (digitChar d) := by decide
  rw [List.getElem?_take_of_lt hdr, hchar d (Nat.lt_of_lt_of_le hdr hr)] at hd
  rw [← Option.some.inj hd, digit?_digitChar hdr hr]
  rfl

/-- Digits with an optional sign, for a number from `-bound` to `bound - 1`. -/
inductive SignedDigits (radix bound : Nat) : List Char → Int → Prop
  | bare {s : List Char} {n : Nat} :
    digits? radix s = some n → n < bound → SignedDigits radix bound s n
  | plus {s : List Char} {n : Nat} :
    digits? radix s = some n → n < bound → SignedDigits radix bound ('+' :: s) n
  | minus {s : List Char} {n : Nat} :
    digits? radix s = some n → n ≤ bound → SignedDigits radix bound ('-' :: s) (-n)

theorem digits?_sign {radix : Nat} {c : Char} (hc : c = '+' ∨ c = '-') (s : List Char) :
    digits? radix (c :: s) = none := by
  have hd : digit? radix c = none := by
    rcases hc with rfl | rfl
    · rfl
    · rfl
  unfold digits?
  rw [if_neg (by simp), List.foldlM_cons, hd]
  rfl

theorem signed?_minus (radix bound : Nat) (s : List Char) : signed? radix bound ('-' :: s) =
    ((digits? radix s).filter (· ≤ bound)).map fun n : Nat => -(n : Int) := by
  show ((digits? radix s).filter (· ≤ bound) >>= fun n => pure (n : Int)).map (fun n => -n) = _
  cases (digits? radix s).filter (· ≤ bound) with
  | none => rfl
  | some n => rfl

theorem signed?_of_ne_minus {s : List Char} (hs : ∀ rest, s ≠ '-' :: rest) (radix bound : Nat) :
    signed? radix bound s = (unsigned? radix bound s).map Int.ofNat := by
  unfold signed?
  split
  · exact absurd rfl (hs _)
  · rfl

theorem signed?_eq_some_iff {radix bound : Nat} {s : List Char} {n : Int} :
    signed? radix bound s = some n ↔ SignedDigits radix bound s n := by
  constructor
  · intro h
    by_cases hs : ∃ rest, s = '-' :: rest
    · obtain ⟨rest, rfl⟩ := hs
      rw [signed?_minus] at h
      obtain ⟨k, hk, rfl⟩ := Option.map_eq_some_iff.1 h
      obtain ⟨hk, hle⟩ := Option.filter_eq_some_iff.1 hk
      exact .minus hk (by simpa using hle)
    · rw [signed?_of_ne_minus (not_exists.1 hs)] at h
      obtain ⟨k, hk, rfl⟩ := Option.map_eq_some_iff.1 h
      unfold unsigned? at hk
      obtain ⟨hk, hlt⟩ := Option.filter_eq_some_iff.1 hk
      have hlt : k < bound := by simpa using hlt
      split at hk
      · exact .plus hk hlt
      · exact .bare hk hlt
  · intro h
    cases h with
    | @bare _ n hn hlt =>
      -- digits alone begin with no sign
      have hsign {c : Char} (hc : c = '+' ∨ c = '-') (rest : List Char) : s ≠ c :: rest := by
        rintro rfl
        rw [digits?_sign hc] at hn
        cases hn
      rw [signed?_of_ne_minus (hsign (Or.inr rfl))]
      unfold unsigned?
      split
      · exact absurd rfl (hsign (Or.inl rfl) _)
      · dsimp only
        rw [hn, Option.filter_some, if_pos (by simpa using hlt)]
        rfl
    | @plus s n hn hlt =>
      show ((digits? radix s).filter (· < bound)).map Int.ofNat = _
      rw [hn, Option.filter_some, if_pos (by simpa using hlt)]
      rfl
    | @minus s n hn hle =>
      rw [signed?_minus, hn, Option.filter_some, if_pos (by simpa using hle)]
      rfl

end Workflow.Text
