import Mathlib.Tactic.Common
import Workflow.Text.Percent

/-! What percent escapes stand for, and that escaping is undone. -/
namespace Workflow.Text

/-- The bytes of the digits `0` to `9`, `A` to `F` and `a` to `f`. -/
def IsHexDigit (b : UInt8) : Prop :=
  (0x30 ≤ b ∧ b ≤ 0x39) ∨ (0x41 ≤ b ∧ b ≤ 0x46) ∨ (0x61 ≤ b ∧ b ≤ 0x66)

instance (b : UInt8) : Decidable (IsHexDigit b) :=
  inferInstanceAs (Decidable (_ ∨ _))

def hexValue (b : UInt8) : Nat :=
  if b ≤ 0x39 then b.toNat - 0x30
  else if b ≤ 0x46 then b.toNat - 0x37
  else b.toNat - 0x57

theorem hexByte?_eq (b : UInt8) :
    hexByte? b = if IsHexDigit b then some (hexValue b) else none := by
  have htable : ∀ n < 256, hexByte? (UInt8.ofNat n) =
      if IsHexDigit (UInt8.ofNat n) then some (hexValue (UInt8.ofNat n)) else none := by
    decide +kernel
  have h := htable b.toNat b.toNat_lt
  rwa [UInt8.ofNat_toNat] at h

theorem IsHexDigit.ne_percent {b : UInt8} (h : IsHexDigit b) : b ≠ 0x25 := by
  rintro rfl
  revert h
  decide

/-- The byte that two digits write. -/
def escapedByte (h l : UInt8) : UInt8 :=
  UInt8.ofNat (hexValue h * 16 + hexValue l)

/-- Whether a byte is an ASCII character whose escape stays as it is. -/
def IsKept (keep : List Char) (b : UInt8) : Prop :=
  b.toNat < 0x80 ∧ Char.ofNat b.toNat ∈ keep

instance (keep : List Char) (b : UInt8) : Decidable (IsKept keep b) :=
  inferInstanceAs (Decidable (_ ∧ _))

/-- What bytes with escapes stand for. -/
inductive Unescaped (keep : List Char) : List UInt8 → List UInt8 → Prop
  | nil : Unescaped keep [] []
  | plain {b : UInt8} {s t : List UInt8} (hb : b ≠ 0x25) (h : Unescaped keep s t) :
    Unescaped keep (b :: s) (b :: t)
  | kept {d e : UInt8} {s t : List UInt8} (hd : IsHexDigit d) (he : IsHexDigit e)
    (hk : IsKept keep (escapedByte d e)) (h : Unescaped keep s t) :
    Unescaped keep (0x25 :: d :: e :: s) (0x25 :: d :: e :: t)
  | byte {d e : UInt8} {s t : List UInt8} (hd : IsHexDigit d) (he : IsHexDigit e)
    (hk : ¬ IsKept keep (escapedByte d e)) (h : Unescaped keep s t) :
    Unescaped keep (0x25 :: d :: e :: s) (escapedByte d e :: t)

/-- Two hexadecimal digits, and more. -/
def BeginsWithDigits (s : List UInt8) : Prop :=
  ∃ d e rest, s = d :: e :: rest ∧ IsHexDigit d ∧ IsHexDigit e

/-- Somewhere a percent sign has no two hexadecimal digits behind it. -/
def HasBrokenEscape (s : List UInt8) : Prop :=
  ∃ before after, s = before ++ 0x25 :: after ∧ ¬ BeginsWithDigits after

variable {keep : List Char} {s t u : List UInt8}

theorem hasBrokenEscape_cons {b : UInt8} (hb : b ≠ 0x25) :
    HasBrokenEscape (b :: s) ↔ HasBrokenEscape s := by
  constructor
  · rintro ⟨before, after, h, hafter⟩
    cases before with
    | nil => exact absurd (List.cons.inj h).1 hb
    | cons c before => exact ⟨before, after, (List.cons.inj h).2, hafter⟩
  · rintro ⟨before, after, rfl, hafter⟩
    exact ⟨b :: before, after, rfl, hafter⟩

theorem hasBrokenEscape_percent :
    HasBrokenEscape (0x25 :: s) ↔ ¬ BeginsWithDigits s ∨ HasBrokenEscape s := by
  constructor
  · rintro ⟨before, after, h, hafter⟩
    cases before with
    | nil =>
      obtain rfl := (List.cons.inj h).2
      exact Or.inl hafter
    | cons c before => exact Or.inr ⟨before, after, (List.cons.inj h).2, hafter⟩
  · rintro (h | ⟨before, after, rfl, hafter⟩)
    · exact ⟨[], s, rfl, h⟩
    · exact ⟨0x25 :: before, after, rfl, hafter⟩

theorem Unescaped.not_hasBrokenEscape (h : Unescaped keep s t) : ¬ HasBrokenEscape s := by
  induction h with
  | nil =>
    rintro ⟨before, after, h, -⟩
    exact absurd h (by simp)
  | plain hb _ ih => rwa [hasBrokenEscape_cons hb]
  | kept hd he _ _ ih =>
    rw [hasBrokenEscape_percent, hasBrokenEscape_cons hd.ne_percent,
      hasBrokenEscape_cons he.ne_percent]
    exact not_or.2 ⟨not_not.2 ⟨_, _, _, rfl, hd, he⟩, ih⟩
  | byte hd he _ _ ih =>
    rw [hasBrokenEscape_percent, hasBrokenEscape_cons hd.ne_percent,
      hasBrokenEscape_cons he.ne_percent]
    exact not_or.2 ⟨not_not.2 ⟨_, _, _, rfl, hd, he⟩, ih⟩

theorem Unescaped.unique (h : Unescaped keep s t) (h' : Unescaped keep s u) : t = u := by
  induction h generalizing u with
  | nil =>
    cases h'
    rfl
  | plain hb _ ih =>
    cases h' with
    | plain _ h' => rw [ih h']
    | kept => exact absurd rfl hb
    | byte => exact absurd rfl hb
  | kept _ _ hk _ ih =>
    cases h' with
    | plain hb => exact absurd rfl hb
    | kept _ _ _ h' => rw [ih h']
    | byte _ _ hk' => exact absurd hk hk'
  | byte _ _ hk _ ih =>
    cases h' with
    | plain hb => exact absurd rfl hb
    | kept _ _ hk' => exact absurd hk' hk
    | byte _ _ _ h' => rw [ih h']

/-- Nothing is longer than an escape. -/
theorem Unescaped.length_le (h : Unescaped keep s t) : s.length ≤ 3 * t.length := by
  induction h with
  | nil => exact Nat.le_refl _
  | plain | kept | byte =>
    simp only [List.length_cons]
    omega

theorem push_append_toByteArray (out : ByteArray) (b : UInt8) (t : List UInt8) :
    out.push b ++ t.toByteArray = out ++ (b :: t).toByteArray := by
  ext1
  simp

theorem percentBytes_plain {b : UInt8} (hb : b ≠ 0x25) (out : ByteArray) :
    percentBytes keep out (b :: s) = percentBytes keep (out.push b) s := by
  conv => lhs; unfold percentBytes
  rw [if_pos (bne_iff_ne.2 hb)]

theorem percentBytes_digits {d e : UInt8} (hd : IsHexDigit d) (he : IsHexDigit e)
    (out : ByteArray) : percentBytes keep out (0x25 :: d :: e :: s) =
      if IsKept keep (escapedByte d e) then percentBytes keep (((out.push 0x25).push d).push e) s
      else percentBytes keep (out.push (escapedByte d e)) s := by
  conv => lhs; unfold percentBytes
  rw [if_neg (by decide)]
  dsimp only
  rw [hexByte?_eq, if_pos hd, hexByte?_eq, if_pos he]
  simp only [Option.bind_eq_bind, Option.bind_some, Bool.and_eq_true, decide_eq_true_eq,
    List.contains_iff_mem]
  rfl

theorem percentBytes_of_not_begins (h : ¬ BeginsWithDigits s) (out : ByteArray) :
    percentBytes keep out (0x25 :: s) = none := by
  unfold percentBytes
  rw [if_neg (by decide)]
  split
  · rename_i d e rest
    rw [hexByte?_eq, hexByte?_eq]
    by_cases hd : IsHexDigit d
    · have he : ¬ IsHexDigit e := fun he => h ⟨d, e, rest, rfl, hd, he⟩
      rw [if_pos hd, if_neg he]
      rfl
    · rw [if_neg hd]
      rfl
  · rfl

/-- The bytes that are read are those behind what was there before, unless an escape is broken. -/
theorem percentBytes_spec (keep : List Char) (s : List UInt8) (out : ByteArray) :
    (∃ t, Unescaped keep s t ∧ percentBytes keep out s = some (out ++ t.toByteArray)) ∨
      HasBrokenEscape s ∧ percentBytes keep out s = none := by
  induction out, s using percentBytes.induct with
  | case1 out => exact Or.inl ⟨[], .nil, by simp [percentBytes]⟩
  | case2 out b s hb ih =>
    have hb := bne_iff_ne.1 hb
    rw [percentBytes_plain hb, hasBrokenEscape_cons hb]
    refine ih.imp_left fun ⟨t, ht, hout⟩ => ⟨b :: t, .plain hb ht, ?_⟩
    rw [hout, push_append_toByteArray]
  | case3 out b hb d e s ihKept ihByte =>
    obtain rfl : b = 0x25 := by simpa using hb
    by_cases hdigits : IsHexDigit d ∧ IsHexDigit e
    · obtain ⟨hd, he⟩ := hdigits
      have hbegins : BeginsWithDigits (d :: e :: s) := ⟨d, e, s, rfl, hd, he⟩
      rw [percentBytes_digits hd he, hasBrokenEscape_percent, hasBrokenEscape_cons hd.ne_percent,
        hasBrokenEscape_cons he.ne_percent, or_iff_right (not_not.2 hbegins)]
      split
      · rename_i hk
        refine ihKept.imp_left fun ⟨t, ht, hout⟩ => ⟨_, .kept hd he hk ht, ?_⟩
        rw [hout, push_append_toByteArray, push_append_toByteArray, push_append_toByteArray]
      · rename_i hk
        refine (ihByte (hexValue d) (hexValue e)).imp_left fun ⟨t, ht, hout⟩ =>
          ⟨_, .byte hd he hk ht, ?_⟩
        rw [← push_append_toByteArray]
        exact hout
    · have hbegins : ¬ BeginsWithDigits (d :: e :: s) := by
        rintro ⟨_, _, _, heq, hd, he⟩
        cases heq
        exact hdigits ⟨hd, he⟩
      exact Or.inr ⟨hasBrokenEscape_percent.2 (Or.inl hbegins),
        percentBytes_of_not_begins hbegins out⟩
  | case4 out b s hb hshort =>
    obtain rfl : b = 0x25 := by simpa using hb
    have hbegins : ¬ BeginsWithDigits s := fun ⟨d, e, rest, heq, _⟩ => hshort d e rest heq
    exact Or.inr ⟨hasBrokenEscape_percent.2 (Or.inl hbegins),
      percentBytes_of_not_begins hbegins out⟩

/-- The bytes of a text. -/
def utf8 (s : String) : List UInt8 :=
  s.toUTF8.data.toList

theorem utf8_ofList (s : List Char) : utf8 (String.ofList s) = s.flatMap String.utf8EncodeChar := by
  rw [utf8, String.toUTF8_eq_toByteArray, String.toByteArray_ofList, List.utf8Encode,
    List.toList_data_toByteArray]

theorem length_utf8 (s : String) : (utf8 s).length = s.utf8ByteSize :=
  rfl

theorem toByteArray_utf8 (s : String) : (utf8 s).toByteArray = s.toByteArray := by
  ext1
  rw [List.data_toByteArray]
  rfl

theorem fromUTF8?_eq_some_iff {b : ByteArray} {t : String} :
    String.fromUTF8? b = some t ↔ t.toByteArray = b := by
  unfold String.fromUTF8?
  split
  · rw [Option.some_inj, ← String.toByteArray_inj, eq_comm]
    rfl
  · rename_i h
    constructor
    · nofun
    · rintro rfl
      exact absurd t.isValidUTF8 h

theorem percentDecode_spec (keep : List Char) (s : String) :
    (∃ t, Unescaped keep (utf8 s) t ∧
      percentDecode keep s = String.fromUTF8? t.toByteArray) ∨
      HasBrokenEscape (utf8 s) ∧ percentDecode keep s = none := by
  have hbind : percentDecode keep s =
    (percentBytes keep .empty (utf8 s)).bind String.fromUTF8? := rfl
  rw [hbind]
  rcases percentBytes_spec keep (utf8 s) .empty with ⟨t, ht, hout⟩ | ⟨hbroken, hout⟩
  · rw [hout, Option.bind_some, ByteArray.empty_append]
    exact Or.inl ⟨t, ht, rfl⟩
  · rw [hout]
    exact Or.inr ⟨hbroken, rfl⟩

/-- A text is unescaped if its bytes are, and what they stand for is a text. -/
theorem percentDecode_eq_some_iff {keep : List Char} {s t : String} :
    percentDecode keep s = some t ↔ Unescaped keep (utf8 s) (utf8 t) := by
  rcases percentDecode_spec keep s with ⟨u, hu, hout⟩ | ⟨hbroken, hout⟩
  · rw [hout, fromUTF8?_eq_some_iff, ← toByteArray_utf8, List.toByteArray_inj]
    constructor
    · rintro rfl
      exact hu
    · exact fun h => h.unique hu
  · rw [hout]
    exact ⟨nofun, fun h => absurd hbroken h.not_hasBrokenEscape⟩

/-- It cannot be unescaped if an escape is broken, or if the bytes are no text. -/
theorem percentDecode_eq_none_iff {keep : List Char} {s : String} :
    percentDecode keep s = none ↔ HasBrokenEscape (utf8 s) ∨
      ∃ t, Unescaped keep (utf8 s) t ∧ ¬ t.toByteArray.IsValidUTF8 := by
  rcases percentDecode_spec keep s with ⟨u, hu, hout⟩ | ⟨hbroken, hout⟩
  · have hunique : (∃ t, Unescaped keep (utf8 s) t ∧ ¬ t.toByteArray.IsValidUTF8) ↔
        ¬ u.toByteArray.IsValidUTF8 := by
      constructor
      · rintro ⟨t, ht, hinvalid⟩
        rwa [hu.unique ht]
      · exact fun h => ⟨u, hu, h⟩
    rw [hunique, or_iff_right hu.not_hasBrokenEscape, hout]
    unfold String.fromUTF8?
    split
    · rename_i hvalid
      exact ⟨nofun, fun h => absurd hvalid h⟩
    · rename_i hinvalid
      exact ⟨fun _ => hinvalid, fun _ => rfl⟩
  · exact ⟨fun _ => Or.inl hbroken, fun _ => hout⟩

/-- Bytes below 128 are characters of their own. -/
theorem eq_ofNat_of_mem_utf8EncodeChar {c : Char} {b : UInt8} (h : b ∈ String.utf8EncodeChar c)
    (hb : b.toNat < 0x80) : c = Char.ofNat b.toNat := by
  have hwide {m n : Nat} (hn : 0x80 ≤ n) (hm : m + n < 0x100) : b ≠ UInt8.ofNat (m + n) := by
    rintro rfl
    rw [UInt8.toNat_ofNat_of_lt' hm] at hb
    omega
  unfold String.utf8EncodeChar at h
  dsimp only at h
  split at h
  · rename_i hc
    obtain rfl := List.mem_singleton.1 h
    rw [UInt8.toNat_ofNat_of_lt' (by simp only [UInt8.size]; omega)]
    exact (Char.ofNat_toNat c).symm
  · exfalso
    split at h
    · simp only [List.mem_cons, List.not_mem_nil, or_false] at h
      rcases h with h | h <;> exact hwide (by decide) (by omega) h
    · split at h
      · simp only [List.mem_cons, List.not_mem_nil, or_false] at h
        rcases h with h | h | h <;> exact hwide (by decide) (by omega) h
      · simp only [List.mem_cons, List.not_mem_nil, or_false] at h
        rcases h with h | h | h | h <;> exact hwide (by decide) (by omega) h

/-- The byte of a digit, letters in upper case. -/
def hexDigit (n : Nat) : UInt8 :=
  UInt8.ofNat (digitChar n).toUpper.toNat

theorem hexDigit_spec : ∀ n < 16, String.utf8EncodeChar (digitChar n).toUpper = [hexDigit n] ∧
    IsHexDigit (hexDigit n) ∧ hexValue (hexDigit n) = n := by
  decide

theorem utf8_escapeByte (b : UInt8) : ∃ d e, IsHexDigit d ∧ IsHexDigit e ∧
    escapedByte d e = b ∧ (escapeByte b).flatMap String.utf8EncodeChar = [0x25, d, e] := by
  obtain ⟨hhigh, hd, hdv⟩ := hexDigit_spec (b.toNat / 16) (by have := b.toNat_lt; omega)
  obtain ⟨hlow, he, hev⟩ := hexDigit_spec (b.toNat % 16) (by omega)
  refine ⟨_, _, hd, he, ?_, ?_⟩
  · rw [escapedByte, hdv, hev, Nat.div_add_mod', UInt8.ofNat_toNat]
  · show String.utf8EncodeChar '%' ++ (String.utf8EncodeChar (digitChar (b.toNat / 16)).toUpper ++
      (String.utf8EncodeChar (digitChar (b.toNat % 16)).toUpper ++ [])) = _
    rw [hhigh, hlow]
    rfl

theorem Unescaped.plain_append {l : List UInt8} (hl : ∀ b ∈ l, b ≠ 0x25)
    (h : Unescaped keep s t) : Unescaped keep (l ++ s) (l ++ t) := by
  induction l with
  | nil => exact h
  | cons b l ih =>
    obtain ⟨hb, hl⟩ := List.forall_mem_cons.1 hl
    exact .plain hb (ih hl)

theorem Unescaped.escaped_append {l : List UInt8} (hl : ∀ b ∈ l, ¬ IsKept keep b)
    (h : Unescaped keep s t) :
    Unescaped keep ((l.flatMap escapeByte).flatMap String.utf8EncodeChar ++ s) (l ++ t) := by
  induction l with
  | nil => exact h
  | cons b l ih =>
    obtain ⟨d, e, hd, he, rfl, hescape⟩ := utf8_escapeByte b
    obtain ⟨hb, hl⟩ := List.forall_mem_cons.1 hl
    rw [List.flatMap_cons, List.flatMap_append, hescape]
    exact .byte hd he hb (ih hl)

/-- Unescaping undoes escaping, if it leaves alone only what escaping leaves alone. -/
theorem unescaped_percentEncode {keep keep' : List Char} (hkeep : '%' ∉ keep)
    (hsubset : keep' ⊆ keep) (s : List Char) :
    Unescaped keep' ((percentEncode keep s).flatMap String.utf8EncodeChar)
      (s.flatMap String.utf8EncodeChar) := by
  induction s with
  | nil => exact .nil
  | cons c s ih =>
    unfold percentEncode at *
    rw [List.flatMap_cons, List.flatMap_cons, List.flatMap_append]
    split
    · rename_i hc
      have hplain : ∀ b ∈ String.utf8EncodeChar c, b ≠ 0x25 := by
        rintro b hb rfl
        obtain rfl := eq_ofNat_of_mem_utf8EncodeChar hb (by decide)
        rcases Bool.or_eq_true_iff.1 hc with hc | hc
        · exact absurd hc (by decide)
        · exact hkeep (List.contains_iff_mem.1 hc)
      rw [List.flatMap_singleton]
      exact ih.plain_append hplain
    · rename_i hc
      have hescaped : ∀ b ∈ String.utf8EncodeChar c, ¬ IsKept keep' b := by
        rintro b hb ⟨hlt, hk⟩
        obtain rfl := eq_ofNat_of_mem_utf8EncodeChar hb hlt
        exact hc (Bool.or_eq_true_iff.2 (Or.inr (List.contains_iff_mem.2 (hsubset hk))))
      exact ih.escaped_append hescaped

theorem percentDecode_percentEncode {keep keep' : List Char} (hkeep : '%' ∉ keep)
    (hsubset : keep' ⊆ keep) (s : String) :
    percentDecode keep' (String.ofList (percentEncode keep s.toList)) = some s := by
  rw [percentDecode_eq_some_iff, utf8_ofList]
  have h := unescaped_percentEncode hkeep hsubset s.toList
  rwa [← utf8_ofList s.toList, String.ofList_toList] at h

end Workflow.Text
