import Workflow.Proofs.Number.Literal
import Workflow.Proofs.Number.Order
import Workflow.Proofs.Text.Radix

/-! The texts that stand for a number: which texts do, as a grammar, and where the reader disagrees with
it. It takes behind the mark of hexadecimal digits what it would take for a signed word. -/
namespace Workflow.Number

open Text

/-- Digits, at least one, with at most one point. -/
inductive IsMantissa : List Char → Prop
  | whole {s : List Char} {n : Nat} : Digits s n → IsMantissa s
  | point {s t : List Char} {n : Nat} : Digits (s ++ t) n → IsMantissa (s ++ '.' :: t)

/-- An exponent that may be left out. -/
inductive IsExponent : List Char → Prop
  | none : IsExponent []
  | digits {c : Char} {negative : Bool} {sign s : List Char} {n : Nat} :
    c = 'e' ∨ c = 'E' → IsSign negative sign → Digits s n → IsExponent (c :: (sign ++ s))

/-- A decimal without a sign. -/
def IsDecimal (s : List Char) : Prop :=
  ∃ mantissa exponent, s = mantissa ++ exponent ∧ IsMantissa mantissa ∧ IsExponent exponent

/-- The reader of exponents leaves nothing behind exponents alone. -/
theorem scanExponent_eq_nil_iff {s : List Char} : (scanExponent s).2 = [] ↔ IsExponent s := by
  constructor
  · intro h
    -- nothing is left of what is read, and everything of what is not
    cases he : (scanExponent s).1 with
    | none =>
      rw [scanExponent_of_none he] at h
      rw [h]
      exact .none
    | some e =>
      obtain ⟨c, negative, sign, body, n, rfl, hc, hsign, hn, -, hrest⟩ :=
        scanExponent_eq_some_iff.1 (Prod.ext he h)
      rw [List.takeWhile_eq_self_iff.2 (List.dropWhile_eq_nil_iff.1 hrest.symm)] at hn
      exact .digits hc hsign (digits?_eq_some_iff.1 hn)
  · intro h
    cases h with
    | none => rfl
    | @digits c negative sign s n hc hsign hs =>
      have hn : digits? 10 (s.takeWhile isDigit) = some n := by
        rw [List.takeWhile_eq_self_iff.2 hs.2.1]
        exact digits?_eq_some_iff.2 hs
      have hdrop : [] = s.dropWhile isDigit := (List.dropWhile_eq_nil_iff.2 hs.2.1).symm
      have hread : scanExponent (c :: (sign ++ s)) = (some (signed negative n), []) :=
        scanExponent_eq_some_iff.2 ⟨c, negative, sign, s, n, rfl, hc, hsign, hn, rfl, hdrop⟩
      rw [hread]

theorem IsExponent.head {s : List Char} (h : IsExponent s) :
    ∀ c ∈ s.head?, isDigit c = false ∧ c ≠ '.' := by
  cases h with
  | none => exact nofun
  | @digits d _ _ _ _ hd =>
    intro c hc
    obtain rfl : d = c := Option.some.inj hc
    rcases hd with rfl | rfl
    · decide
    · decide

section

variable {s : List Char}

theorem scan_of_point {r : List Char} (hr : s.dropWhile isDigit = '.' :: r)
    (hne : s.takeWhile isDigit ++ r.takeWhile isDigit ≠ []) :
    scan s = ⟨s.takeWhile isDigit, r.takeWhile isDigit, (scanExponent (r.dropWhile isDigit)).1,
      (scanExponent (r.dropWhile isDigit)).2⟩ := by
  have hdigit : ¬((s.takeWhile isDigit).isEmpty && (r.takeWhile isDigit).isEmpty) = true := by
    rwa [Bool.and_eq_true, List.isEmpty_iff, List.isEmpty_iff, ← List.append_eq_nil_iff]
  unfold scan
  simp only [hr, if_neg hdigit]

theorem scan_of_whole (hr : ∀ r, s.dropWhile isDigit ≠ '.' :: r) (hne : s.takeWhile isDigit ≠ []) :
    scan s = ⟨s.takeWhile isDigit, [], (scanExponent (s.dropWhile isDigit)).1,
      (scanExponent (s.dropWhile isDigit)).2⟩ := by
  have hdigit : ¬((s.takeWhile isDigit).isEmpty && ([] : List Char).isEmpty) = true := by
    rwa [List.isEmpty_nil, Bool.and_true, List.isEmpty_iff]
  unfold scan
  dsimp only
  split
  · exact absurd ‹_› (hr _)
  · dsimp only
    rw [if_neg hdigit]

theorem scan_of_no_digit (hs : s.takeWhile isDigit = [])
    (hr : ∀ r, s.dropWhile isDigit = '.' :: r → r.takeWhile isDigit = []) :
    (scan s).value? = none := by
  have hlayout : (scan s).whole = [] ∧ (scan s).fraction = [] := by
    unfold scan
    dsimp only
    split
    · rename_i r hpoint
      rw [hs, hr r hpoint]
      exact ⟨rfl, rfl⟩
    · exact ⟨hs, rfl⟩
  unfold Scanned.value?
  rw [hlayout.1, hlayout.2]
  rfl

/-- Digits alone, at least one, write a number. -/
theorem exists_digits (hne : s ≠ []) (hs : ∀ c ∈ s, isDigit c = true) : ∃ n, Digits s n :=
  ⟨_, hne, hs, rfl⟩

theorem isDigit_takeWhile : ∀ c ∈ s.takeWhile isDigit, isDigit c = true :=
  fun _ => List.mem_takeWhile_imp

/-- What has a value begins with digits and a point, and its exponent follows. -/
theorem scan_layout {x : Float} (h : (scan s).value? = some x) :
    ∃ mantissa tail, s = mantissa ++ tail ∧ IsMantissa mantissa ∧
      (scan s).rest = (scanExponent tail).2 := by
  have hsplit : s.takeWhile isDigit ++ s.dropWhile isDigit = s := List.takeWhile_append_dropWhile
  -- the point counts if a digit stands on one of its sides
  by_cases hpoint : ∃ r, s.dropWhile isDigit = '.' :: r
  · obtain ⟨r, hr⟩ := hpoint
    by_cases hne : s.takeWhile isDigit ++ r.takeWhile isDigit = []
    · obtain ⟨hs, hfraction⟩ := List.append_eq_nil_iff.1 hne
      rw [scan_of_no_digit hs fun r' hr' => by
        rwa [← (List.cons.inj (hr.symm.trans hr')).2]] at h
      cases h
    · have hdigits : ∀ c ∈ s.takeWhile isDigit ++ r.takeWhile isDigit, isDigit c = true :=
        List.forall_mem_append.2 ⟨isDigit_takeWhile, isDigit_takeWhile⟩
      obtain ⟨n, hn⟩ := exists_digits hne hdigits
      refine ⟨_, r.dropWhile isDigit, ?_, .point hn, ?_⟩
      · rw [List.append_assoc, List.cons_append, List.takeWhile_append_dropWhile, ← hr, hsplit]
      · rw [scan_of_point hr hne]
  · by_cases hs : s.takeWhile isDigit = []
    · rw [scan_of_no_digit hs fun r hr => absurd ⟨r, hr⟩ hpoint] at h
      cases h
    · obtain ⟨n, hn⟩ := exists_digits hs isDigit_takeWhile
      refine ⟨_, s.dropWhile isDigit, hsplit.symm, .whole hn, ?_⟩
      rw [scan_of_whole (not_exists.1 hpoint) hs]

end

/-- Digits and a point in front of an exponent are all laid out. -/
theorem scan_mantissa {mantissa tail : List Char} (hm : IsMantissa mantissa)
    (ht : ∀ c ∈ tail.head?, isDigit c = false ∧ c ≠ '.') :
    (∃ x, (scan (mantissa ++ tail)).value? = some x) ∧
      (scan (mantissa ++ tail)).rest = (scanExponent tail).2 := by
  have hdigit : ∀ c ∈ tail.head?, isDigit c = false := fun c hc => (ht c hc).1
  have hvalue {whole fraction : List Char} {e : Option Int} {rest : List Char} {n : Nat}
      (hn : Digits (whole ++ fraction) n) :
      ∃ x, (Scanned.mk whole fraction e rest).value? = some x := by
    unfold Scanned.value?
    dsimp only
    rw [digits?_eq_some_iff.2 hn]
    exact ⟨_, rfl⟩
  cases hm with
  | @whole _ n hn =>
    have htake : (mantissa ++ tail).takeWhile isDigit = mantissa :=
      takeWhile_append_of_all hdigit hn.2.1
    have hdrop : (mantissa ++ tail).dropWhile isDigit = tail :=
      dropWhile_append_of_all hdigit hn.2.1
    have hpoint : ∀ r, (mantissa ++ tail).dropWhile isDigit ≠ '.' :: r := by
      rw [hdrop]
      rintro r rfl
      exact (ht '.' rfl).2 rfl
    rw [scan_of_whole hpoint (htake.symm ▸ hn.1), htake, hdrop]
    refine ⟨hvalue (n := n) ?_, rfl⟩
    rwa [List.append_nil]
  | @point a b n hn =>
    obtain ⟨ha, hb⟩ := List.forall_mem_append.1 hn.2.1
    have hpoint : ∀ c ∈ ('.' :: (b ++ tail)).head?, isDigit c = false := by
      intro c hc
      obtain rfl : '.' = c := Option.some.inj hc
      rfl
    have hs : a ++ '.' :: b ++ tail = a ++ '.' :: (b ++ tail) := List.append_assoc _ _ _
    have htake : (a ++ '.' :: b ++ tail).takeWhile isDigit = a := by
      rw [hs]
      exact takeWhile_append_of_all hpoint ha
    have hdrop : (a ++ '.' :: b ++ tail).dropWhile isDigit = '.' :: (b ++ tail) := by
      rw [hs]
      exact dropWhile_append_of_all hpoint ha
    have htake' : (b ++ tail).takeWhile isDigit = b := takeWhile_append_of_all hdigit hb
    have hdrop' : (b ++ tail).dropWhile isDigit = tail := dropWhile_append_of_all hdigit hb
    rw [scan_of_point hdrop (by rw [htake, htake']; exact hn.1), htake, htake', hdrop']
    exact ⟨hvalue hn, rfl⟩

theorem isSome_unsignedDecimal?_iff {s : List Char} :
    (unsignedDecimal? s).isSome = true ↔ IsDecimal s := by
  unfold unsignedDecimal?
  dsimp only
  constructor
  · intro h
    split at h
    · rename_i hrest
      obtain ⟨x, hx⟩ := Option.isSome_iff_exists.1 h
      obtain ⟨mantissa, tail, hs, hm, ht⟩ := scan_layout hx
      rw [ht, List.isEmpty_iff] at hrest
      exact ⟨mantissa, tail, hs, hm, scanExponent_eq_nil_iff.1 hrest⟩
    · cases h
  · rintro ⟨mantissa, tail, rfl, hm, he⟩
    obtain ⟨⟨x, hx⟩, hrest⟩ := scan_mantissa hm he.head
    rw [hrest, scanExponent_eq_nil_iff.2 he, hx]
    rfl

theorem isNaN_unsignedDecimal? {s : List Char} {x : Float} (h : unsignedDecimal? s = some x) :
    x.isNaN = false := by
  unfold unsignedDecimal? at h
  dsimp only at h
  split at h
  · obtain ⟨n, -, rfl⟩ := Option.map_eq_some_iff.1 h
    exact isNaN_ofDecimal _ _
  · cases h

/-- A decimal without a sign begins with none. -/
theorem IsDecimal.head {s : List Char} (h : IsDecimal s) {c : Char} (hc : isDigit c = false)
    (hpoint : c ≠ '.') (rest : List Char) : s ≠ c :: rest := by
  obtain ⟨mantissa, tail, rfl, hm, -⟩ := h
  intro heq
  have hdigit {d : Char} {t : List Char} (hd : isDigit d = true) : d :: t ≠ c :: rest := by
    intro h
    rw [(List.cons.inj h).1, hc] at hd
    cases hd
  cases hm with
  | @whole _ n hn =>
    obtain ⟨d, t, rfl⟩ := List.exists_cons_of_ne_nil hn.1
    exact hdigit (hn.2.1 d List.mem_cons_self) heq
  | @point a b n hn =>
    cases a with
    | nil => exact hpoint (List.cons.inj heq).1.symm
    | cons d a => exact hdigit (hn.2.1 d List.mem_cons_self) heq

theorem isSome_withSign_iff {s : List Char} : (withSign unsignedDecimal? s).isSome = true ↔
    ∃ negative sign t, s = sign ++ t ∧ IsSign negative sign ∧ IsDecimal t := by
  constructor
  · intro h
    unfold withSign at h
    split at h
    · exact ⟨_, _, _, rfl, .plus, isSome_unsignedDecimal?_iff.1 h⟩
    · rw [Option.isSome_map] at h
      exact ⟨_, _, _, rfl, .minus, isSome_unsignedDecimal?_iff.1 h⟩
    · exact ⟨_, _, _, rfl, .none, isSome_unsignedDecimal?_iff.1 h⟩
  · rintro ⟨negative, sign, t, rfl, hsign, ht⟩
    have hread := isSome_unsignedDecimal?_iff.2 ht
    cases hsign with
    | none =>
      have hp := ht.head (c := '+') (by decide) (by decide)
      have hm := ht.head (c := '-') (by decide) (by decide)
      rwa [List.nil_append, withSign_of_no_sign hp hm]
    | plus => exact hread
    | minus =>
      show ((unsignedDecimal? t).map (-·)).isSome = true
      rwa [Option.isSome_map]

theorem isNaN_withSign {s : List Char} {x : Float} (h : withSign unsignedDecimal? s = some x) :
    x.isNaN = false := by
  unfold withSign at h
  split at h
  · exact isNaN_unsignedDecimal? h
  · obtain ⟨y, hy, rfl⟩ := Option.map_eq_some_iff.1 h
    exact isNaN_neg (isNaN_unsignedDecimal? hy)
  · exact isNaN_unsignedDecimal? h

/-- A text that stands for a number, `IsHex` being what may follow the mark of hexadecimal
digits. -/
inductive NumericBy (IsHex : List Char → Prop) : List Char → Prop
  | blank : NumericBy IsHex []
  | infinity {negative : Bool} {sign : List Char} :
    IsSign negative sign → NumericBy IsHex (sign ++ "Infinity".toList)
  | hex {x : Char} {body : List Char} :
    x = 'x' ∨ x = 'X' → IsHex body → NumericBy IsHex ('0' :: x :: body)
  | decimal {negative : Bool} {sign s : List Char} :
    IsSign negative sign → IsDecimal s → NumericBy IsHex (sign ++ s)

/-- What the reader takes behind the mark of hexadecimal digits: a signed word of 64 bits. -/
def IsWord (s : List Char) : Prop :=
  ∃ n, SignedDigits 16 0x8000_0000_0000_0000 s n

theorem isNaN_getD_nan {x? : Option Float} (h : ∀ x, x? = some x → x.isNaN = false) :
    (x?.getD nan).isNaN = false ↔ x?.isSome = true := by
  cases x? with
  | none => exact ⟨nofun, nofun⟩
  | some x => exact ⟨fun _ => rfl, fun _ => h x rfl⟩

theorem isNaN_word_iff {s : List Char} :
    (((signed? 16 0x8000_0000_0000_0000 s).map ofInt).getD nan).isNaN = false ↔ IsWord s := by
  rw [isNaN_getD_nan, Option.isSome_map, Option.isSome_iff_exists]
  · exact exists_congr fun n => signed?_eq_some_iff
  · intro x hx
    obtain ⟨n, -, rfl⟩ := Option.map_eq_some_iff.1 hx
    exact isNaN_ofInt n

theorem isNaN_decimal_iff {s : List Char} : ((withSign unsignedDecimal? s).getD nan).isNaN = false ↔
    ∃ negative sign t, s = sign ++ t ∧ IsSign negative sign ∧ IsDecimal t :=
  (isNaN_getD_nan fun _ => isNaN_withSign).trans isSome_withSign_iff

/-- No decimal has the mark of hexadecimal digits. -/
theorem not_decimal_of_mark {x : Char} (hx : x = 'x' ∨ x = 'X') {negative : Bool}
    {sign t body : List Char} (hsign : IsSign negative sign) (ht : IsDecimal t) :
    sign ++ t ≠ '0' :: x :: body := by
  have hpart : isPart x = false := by
    rcases hx with rfl | rfl
    · decide
    · decide
  intro heq
  cases hsign with
  | none =>
    have hmem : x ∈ t := by
      rw [show t = '0' :: x :: body from heq]
      exact List.mem_cons_of_mem _ List.mem_cons_self
    have hread := isSome_unsignedDecimal?_iff.2 ht
    rw [unsignedDecimal?_of_mem hmem hpart] at hread
    cases hread
  | plus => exact absurd (List.cons.inj heq).1 (by decide)
  | minus => exact absurd (List.cons.inj heq).1 (by decide)

section

variable {P Q : List Char → Prop}

theorem numericBy_mark_iff {x : Char} {body : List Char} (hx : x = 'x' ∨ x = 'X') :
    NumericBy P ('0' :: x :: body) ↔ P body := by
  refine ⟨fun h => ?_, .hex hx⟩
  generalize ht : '0' :: x :: body = t at h
  cases h with
  | blank => cases ht
  | infinity hsign =>
    cases hsign with
    | none | plus | minus => exact absurd (List.cons.inj ht).1 (by decide)
  | hex _ hbody => rwa [(List.cons.inj (List.cons.inj ht).2).2]
  | decimal hsign hs => exact absurd ht.symm (not_decimal_of_mark hx hsign hs)

/-- Without the mark it does not matter what may follow it. -/
theorem NumericBy.of_no_mark {t : List Char} (h : NumericBy P t)
    (ht : ∀ x body, x = 'x' ∨ x = 'X' → t ≠ '0' :: x :: body) : NumericBy Q t := by
  cases h with
  | blank => exact .blank
  | infinity hsign => exact .infinity hsign
  | hex hx => exact absurd rfl (ht _ _ hx)
  | decimal hsign hs => exact .decimal hsign hs

end

theorem isNaN_ofText_iff {s : List Char} : (ofText s).isNaN = false ↔ NumericBy IsWord (trim s) := by
  unfold ofText
  dsimp only
  constructor
  · intro h
    split at h
    · rename_i hempty
      rw [List.isEmpty_iff.1 hempty]
      exact .blank
    · split at h
      · rename_i hword
        rcases hword with hword | hword
        · exact hword ▸ .infinity .none
        · exact hword ▸ .infinity .plus
      · split at h
        · rename_i hword
          exact hword ▸ .infinity .minus
        · split at h
          · rename_i hmark
            exact hmark ▸ .hex (Or.inl rfl) (isNaN_word_iff.1 h)
          · rename_i hmark
            exact hmark ▸ .hex (Or.inr rfl) (isNaN_word_iff.1 h)
          · obtain ⟨negative, sign, t, hs, hsign, ht⟩ := isNaN_decimal_iff.1 h
            exact hs ▸ .decimal hsign ht
  · intro h
    generalize trim s = t at h
    split
    · rfl
    · rename_i hempty
      split
      · rfl
      · rename_i hword
        split
        · rfl
        · rename_i hminus
          split
          · exact isNaN_word_iff.2 ((numericBy_mark_iff (Or.inl rfl)).1 h)
          · exact isNaN_word_iff.2 ((numericBy_mark_iff (Or.inr rfl)).1 h)
          · rename_i hx hX
            -- what is left is neither blank nor an infinity, and has no mark
            refine isNaN_decimal_iff.2 ?_
            cases h with
            | blank => exact absurd rfl hempty
            | infinity hsign =>
              cases hsign with
              | none => exact absurd (Or.inl rfl) hword
              | plus => exact absurd (Or.inr rfl) hword
              | minus => exact absurd rfl hminus
            | @hex x body hmark =>
              rcases hmark with rfl | rfl
              · exact absurd rfl (hx body)
              · exact absurd rfl (hX body)
            | decimal hsign ht => exact ⟨_, _, _, rfl, hsign, ht⟩

/-- The characters of hexadecimal digits, with letters in either case. -/
def IsHexChar (c : Char) : Prop :=
  '0' ≤ c ∧ c ≤ '9' ∨ 'a' ≤ c ∧ c ≤ 'f' ∨ 'A' ≤ c ∧ c ≤ 'F'

/-- A text that stands for a number: a blank one, an infinity, hexadecimal digits behind their mark, or
a decimal. -/
def IsNumeric (s : List Char) : Prop :=
  NumericBy (fun body => body ≠ [] ∧ ∀ c ∈ body, IsHexChar c) s

theorem isSome_digit?_sixteen_iff {c : Char} : (digit? 16 c).isSome = true ↔ IsHexChar c := by
  have hfilter (d : Nat) : ((some d).filter (· < 16)).isSome = true ↔ d < 16 := by simp
  -- in the numbers of characters
  show _ ↔ 48 ≤ c.toNat ∧ c.toNat ≤ 57 ∨ 97 ≤ c.toNat ∧ c.toNat ≤ 102 ∨
    65 ≤ c.toNat ∧ c.toNat ≤ 70
  have hdigit : '0' ≤ c ∧ c ≤ '9' ↔ 48 ≤ c.toNat ∧ c.toNat ≤ 57 := Iff.rfl
  have hlower : 'a' ≤ c ∧ c ≤ 'z' ↔ 97 ≤ c.toNat ∧ c.toNat ≤ 122 := Iff.rfl
  have hupper : 'A' ≤ c ∧ c ≤ 'Z' ↔ 65 ≤ c.toNat ∧ c.toNat ≤ 90 := Iff.rfl
  unfold digit?
  simp only [hdigit, hlower, hupper]
  split
  · rw [hfilter]
    show c.toNat - 48 < 16 ↔ _
    omega
  · split
    · rw [hfilter]
      show c.toNat - 97 + 10 < 16 ↔ _
      omega
    · split
      · rw [hfilter]
        show c.toNat - 65 + 10 < 16 ↔ _
        omega
      · rw [Option.filter_none]
        refine ⟨nofun, fun h => ?_⟩
        omega

/-- What behind the mark of hexadecimal digits is misread: digits too large for a signed word are not
read, and a sign in front of other digits is. -/
inductive Misread : List Char → Prop
  | large {s : List Char} {n : Nat} :
    digits? 16 s = some n → 0x8000_0000_0000_0000 ≤ n → Misread s
  | plus {s : List Char} {n : Nat} :
    digits? 16 s = some n → n < 0x8000_0000_0000_0000 → Misread ('+' :: s)
  | minus {s : List Char} {n : Nat} :
    digits? 16 s = some n → n ≤ 0x8000_0000_0000_0000 → Misread ('-' :: s)

theorem isWord_iff_digits_iff {s : List Char} :
    (IsWord s ↔ s ≠ [] ∧ ∀ c ∈ s, IsHexChar c) ↔ ¬Misread s := by
  have hdigits : (s ≠ [] ∧ ∀ c ∈ s, IsHexChar c) ↔ ∃ n, digits? 16 s = some n := by
    rw [exists_digits?_iff]
    exact and_congr_right fun _ => forall₂_congr fun c _ => isSome_digit?_sixteen_iff.symm
  have hsigned {c : Char} (hc : c = '+' ∨ c = '-') {t : List Char} {n : Nat} :
      digits? 16 (c :: t) ≠ some n := by
    rw [digits?_sign hc]
    exact nofun
  rw [hdigits]
  constructor
  · intro h hm
    cases hm with
    | large hn hle =>
      -- digits alone can be a word only by their value, and that is too large
      obtain ⟨k, hk⟩ := h.2 ⟨_, hn⟩
      cases hk with
      | bare hk hlt =>
        rw [hn] at hk
        exact absurd hlt (Nat.not_lt.2 (Option.some.inj hk ▸ hle))
      | plus => exact hsigned (Or.inl rfl) hn
      | minus => exact hsigned (Or.inr rfl) hn
    | plus hn hlt =>
      obtain ⟨k, hk⟩ := h.1 ⟨_, .plus hn hlt⟩
      exact hsigned (Or.inl rfl) hk
    | minus hn hle =>
      obtain ⟨k, hk⟩ := h.1 ⟨_, .minus hn hle⟩
      exact hsigned (Or.inr rfl) hk
  · intro hm
    constructor
    · rintro ⟨n, hn⟩
      cases hn with
      | bare hn => exact ⟨_, hn⟩
      | plus hn hlt => exact absurd (.plus hn hlt) hm
      | minus hn hle => exact absurd (.minus hn hle) hm
    · rintro ⟨n, hn⟩
      exact ⟨n, .bare hn (Nat.lt_of_not_le fun hle => hm (.large hn hle))⟩

/-- Texts are read as numbers exactly where they should be, but for what is misread behind the mark
of hexadecimal digits. -/
theorem numeric_read_iff_not_misread (s : List Char) :
    ((ofText s).isNaN = false ↔ IsNumeric (trim s)) ↔
      ∀ x body, x = 'x' ∨ x = 'X' → trim s = '0' :: x :: body → ¬Misread body := by
  rw [isNaN_ofText_iff]
  -- the texts that are read and those that should be differ in what may follow the mark
  constructor
  · intro h x body hx hs
    rw [hs, IsNumeric, numericBy_mark_iff hx, numericBy_mark_iff hx] at h
    exact isWord_iff_digits_iff.1 h
  · intro h
    by_cases hmark : ∃ x body, (x = 'x' ∨ x = 'X') ∧ trim s = '0' :: x :: body
    · obtain ⟨x, body, hx, hs⟩ := hmark
      rw [hs, IsNumeric, numericBy_mark_iff hx, numericBy_mark_iff hx]
      exact isWord_iff_digits_iff.2 (h x body hx hs)
    · have hno : ∀ x body, x = 'x' ∨ x = 'X' → trim s ≠ '0' :: x :: body := by
        intro x body hx hs
        exact hmark ⟨x, body, hx, hs⟩
      exact ⟨fun hn => hn.of_no_mark hno, fun hn => hn.of_no_mark hno⟩

/-- A sign is read behind the mark, and the largest words are not. -/
theorem not_numeric_read_signed_hex :
    ((ofText "0x-f".toList).isNaN = false ∧ ¬IsNumeric (trim "0x-f".toList)) ∧
      (ofText "0xffffffffffffffff".toList).isNaN = true ∧
        IsNumeric (trim "0xffffffffffffffff".toList) := by
  refine ⟨⟨by decide +kernel, ?_⟩, by decide +kernel, ?_⟩
  · show ¬IsNumeric ['0', 'x', '-', 'f']
    rw [IsNumeric, numericBy_mark_iff (Or.inl rfl)]
    intro h
    exact absurd (h.2 '-' List.mem_cons_self) (by unfold IsHexChar; decide)
  · show IsNumeric ('0' :: 'x' :: List.replicate 16 'f')
    rw [IsNumeric, numericBy_mark_iff (Or.inl rfl)]
    refine ⟨List.cons_ne_nil _ _, fun c hc => ?_⟩
    rw [List.eq_of_mem_replicate hc]
    exact Or.inr (Or.inl (by decide))

end Workflow.Number
