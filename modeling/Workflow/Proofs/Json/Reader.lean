import Mathlib.Data.List.Basic
import Mathlib.Data.List.TakeWhile
import Mathlib.Tactic.Common
import Workflow.Json.Parser
import Workflow.Json.Printer
import Workflow.Proofs.Number.Literal
import Workflow.Proofs.Text.Decimal

/-! The reader of JSON: texts between quotes and numbers, read back whatever follows them, then one
step of the reader, by the character it finds behind white space, and how lists of items and of
entries go on. -/
namespace Workflow.Json

open Number Text

/-- A control character in its escaped form is read back. -/
theorem stringBody_control {c : Char} (hc : c.toNat < 0x20) (done rest : List Char) :
    stringBody done ('\\' :: 'u' :: '0' :: '0' :: (padLeft 2 '0' (Text.ofNat 16 c.toNat) ++ rest)) =
      stringBody (c :: done) rest := by
  have hall : ∀ n < 0x20, (padLeft 2 '0' (Text.ofNat 16 n)).length = 2 ∧
      digits? 16 ('0' :: '0' :: padLeft 2 '0' (Text.ofNat 16 n)) = some n := by
    decide +kernel
  obtain ⟨hlength, hvalue⟩ := hall c.toNat hc
  -- two digits, so that the four digits of the escape are those read
  obtain ⟨a, b, hab⟩ := List.length_eq_two.1 hlength
  rw [hab] at hvalue ⊢
  show stringBody done ('\\' :: 'u' :: '0' :: '0' :: a :: b :: rest) = _
  rw [stringBody, unit?, hvalue]
  dsimp only
  rw [if_neg (by omega), if_neg (by omega), Char.ofNat_toNat]

theorem stringBody_plain {c : Char} (hq : c ≠ '\x22') (hb : c ≠ '\\') (hc : ¬c.toNat < 0x20)
    (done rest : List Char) : stringBody done (c :: rest) = stringBody (c :: done) rest := by
  rw [stringBody.eq_def]
  split
  · contradiction
  · rename_i he
    exact absurd (List.cons.inj he).1 hq
  · rename_i he
    exact absurd (List.cons.inj he).1 hb
  · rename_i he
    exact absurd (List.cons.inj he).1 hb
  · rename_i he
    obtain ⟨rfl, rfl⟩ := List.cons.inj he
    rw [if_neg (by rintro (h | h) <;> contradiction)]

/-- What is written for a character between quotes is read as the character. -/
theorem stringBody_escapeChar (c : Char) (done rest : List Char) :
    stringBody done (escapeChar c ++ rest) = stringBody (c :: done) rest := by
  unfold escapeChar
  -- the seven short escapes, the other control characters, and what is written as it is
  split_ifs with hq hb h₁ h₂ h₃ h₄ h₅ hcontrol
  · subst hq
    rfl
  · subst hb
    rfl
  · subst h₁
    rfl
  · subst h₂
    rfl
  · subst h₃
    rfl
  · subst h₄
    rfl
  · subst h₅
    rfl
  · exact stringBody_control hcontrol done rest
  · exact stringBody_plain hq hb hcontrol done rest

theorem stringBody_escaped (s done rest : List Char) :
    stringBody done (s.flatMap escapeChar ++ '\x22' :: rest) = some (done.reverse ++ s, rest) := by
  induction s generalizing done with
  | nil => rw [List.flatMap_nil, List.nil_append, stringBody, List.append_nil]
  | cons c s ih =>
    rw [List.flatMap_cons, List.append_assoc, stringBody_escapeChar, ih, List.reverse_cons,
      List.append_assoc]
    rfl

/-- No number goes on with the text. -/
def EndsNumeral (s : List Char) : Prop :=
  ∀ c ∈ s.head?, isDigit c = false ∧ c ≠ '.' ∧ c ≠ 'e' ∧ c ≠ 'E'

theorem fractionDigits?_point (s : List Char) :
    fractionDigits? ('.' :: s) =
      if s.takeWhile isDigit = [] then none
      else some (s.takeWhile isDigit, s.dropWhile isDigit) := by
  unfold fractionDigits?
  split
  · rename_i he
    obtain ⟨-, rfl⟩ := List.cons.inj he
    split
    · rename_i hnil
      rw [if_pos hnil]
    · rename_i hne
      rw [if_neg hne]
  · rename_i hne
    exact absurd rfl (hne s)

theorem fractionDigits?_other {c : Char} (hc : c ≠ '.') (s : List Char) :
    fractionDigits? (c :: s) = some ([], c :: s) := by
  unfold fractionDigits?
  split
  · rename_i he
    exact absurd (List.cons.inj he).1 hc
  · rfl

theorem exponentPart?_letter {c : Char} (hc : c = 'e' ∨ c = 'E') (s : List Char) :
    exponentPart? (c :: s) =
      (scanExponent (c :: s)).1.map fun e => (some e, (scanExponent (c :: s)).2) := by
  cases hscan : scanExponent (c :: s) with
  | mk e r =>
    rcases hc with rfl | rfl
    all_goals
      unfold exponentPart?
      dsimp only
      rw [hscan]
      cases e <;> rfl

theorem exponentPart?_other {c : Char} (hc : ¬(c = 'e' ∨ c = 'E')) (s : List Char) :
    exponentPart? (c :: s) = some (none, c :: s) := by
  unfold exponentPart?
  split
  · rename_i he
    exact absurd (Or.inl (List.cons.inj he).1) hc
  · rename_i he
    exact absurd (Or.inr (List.cons.inj he).1) hc
  · rfl

section

variable {s r rest : List Char} (hrest : EndsNumeral rest)
include hrest

theorem EndsNumeral.digit : ∀ c ∈ rest.head?, isDigit c = false :=
  fun c hc => (hrest c hc).1

theorem wholeDigits?_append {d : List Char} (h : wholeDigits? s = some (d, r)) :
    wholeDigits? (s ++ rest) = some (d, r ++ rest) := by
  unfold wholeDigits? at h ⊢
  rw [takeWhile_append_of_head hrest.digit, dropWhile_append_of_head hrest.digit]
  split at h
  · contradiction
  · contradiction
  · obtain ⟨rfl, rfl⟩ := Prod.mk.inj (Option.some.inj h)
    rfl

theorem fractionDigits?_append {d : List Char} (h : fractionDigits? s = some (d, r)) :
    fractionDigits? (s ++ rest) = some (d, r ++ rest) := by
  cases s with
  | nil =>
    obtain ⟨rfl, rfl⟩ := Prod.mk.inj (Option.some.inj h)
    show fractionDigits? rest = some ([], rest)
    unfold fractionDigits?
    split
    · exact absurd rfl (hrest '.' rfl).2.1
    · rfl
  | cons c s =>
    by_cases hc : c = '.'
    · subst hc
      rw [fractionDigits?_point] at h
      rw [List.cons_append, fractionDigits?_point, takeWhile_append_of_head hrest.digit,
        dropWhile_append_of_head hrest.digit]
      split at h
      · contradiction
      · rename_i hdigits
        rw [if_neg hdigits]
        obtain ⟨rfl, rfl⟩ := Prod.mk.inj (Option.some.inj h)
        rfl
    · rw [fractionDigits?_other hc] at h
      obtain ⟨rfl, rfl⟩ := Prod.mk.inj (Option.some.inj h)
      exact fractionDigits?_other hc (s ++ rest)

theorem scanExponent_append {e : Int} (h : scanExponent s = (some e, r)) :
    scanExponent (s ++ rest) = (some e, r ++ rest) := by
  obtain ⟨c, negative, sign, body, n, rfl, hc, hsign, hn, he, rfl⟩ :=
    scanExponent_eq_some_iff.1 h
  refine scanExponent_eq_some_iff.2
    ⟨c, negative, sign, body ++ rest, n, ?_, hc, hsign, ?_, he, ?_⟩
  · rw [List.cons_append, List.append_assoc]
  · rwa [takeWhile_append_of_head hrest.digit]
  · rw [dropWhile_append_of_head hrest.digit]

theorem exponentPart?_append {e : Option Int} (h : exponentPart? s = some (e, r)) :
    exponentPart? (s ++ rest) = some (e, r ++ rest) := by
  cases s with
  | nil =>
    obtain ⟨rfl, rfl⟩ := Prod.mk.inj (Option.some.inj h)
    show exponentPart? rest = some (none, rest)
    unfold exponentPart?
    split
    · exact absurd rfl (hrest 'e' rfl).2.2.1
    · exact absurd rfl (hrest 'E' rfl).2.2.2
    · rfl
  | cons c s =>
    by_cases hc : c = 'e' ∨ c = 'E'
    · rw [exponentPart?_letter hc] at h
      obtain ⟨k, hk, he⟩ := Option.map_eq_some_iff.1 h
      obtain ⟨rfl, rfl⟩ := Prod.mk.inj he
      have hscan := scanExponent_append hrest (Prod.ext hk rfl)
      rw [List.cons_append, exponentPart?_letter hc, ← List.cons_append, hscan]
      rfl
    · rw [exponentPart?_other hc] at h
      obtain ⟨rfl, rfl⟩ := Prod.mk.inj (Option.some.inj h)
      exact exponentPart?_other hc (s ++ rest)

theorem readUnsigned?_append {negative : Bool} {n : Numeral}
    (h : readUnsigned? negative s = some (n, r)) :
    readUnsigned? negative (s ++ rest) = some (n, r ++ rest) := by
  unfold readUnsigned? at h ⊢
  obtain ⟨⟨whole, r₁⟩, hw, h⟩ := Option.bind_eq_some_iff.1 h
  obtain ⟨⟨fraction, r₂⟩, hf, h⟩ := Option.bind_eq_some_iff.1 h
  obtain ⟨⟨exponent, r₃⟩, he, h⟩ := Option.bind_eq_some_iff.1 h
  obtain ⟨m, hm, h⟩ := Option.bind_eq_some_iff.1 h
  obtain ⟨rfl, rfl⟩ := Prod.mk.inj (Option.some.inj h)
  rw [wholeDigits?_append hrest hw]
  refine Option.bind_eq_some_iff.2 ⟨_, rfl, ?_⟩
  dsimp only
  rw [fractionDigits?_append hrest hf]
  refine Option.bind_eq_some_iff.2 ⟨_, rfl, ?_⟩
  dsimp only
  rw [exponentPart?_append hrest he]
  refine Option.bind_eq_some_iff.2 ⟨_, rfl, ?_⟩
  dsimp only
  rw [hm]
  rfl

/-- A number is read up to where no number goes on. -/
theorem readNumeral?_append {n : Numeral} (h : readNumeral? s = some (n, r)) :
    readNumeral? (s ++ rest) = some (n, r ++ rest) := by
  cases s with
  | nil => exact absurd h nofun
  | cons c s =>
    by_cases hm : c = '-'
    · subst hm
      exact readUnsigned?_append hrest h
    · have hplain : ∀ s : List Char, readNumeral? (c :: s) = readUnsigned? false (c :: s) := by
        intro s
        rw [readNumeral?]
        exact fun r hr => hm (List.cons.inj hr).1
      rw [hplain] at h
      rw [List.cons_append, hplain, ← List.cons_append]
      exact readUnsigned?_append hrest h

end

theorem head?_toDigits_ne_zero {n : Nat} (hn : 0 < n) : (Nat.toDigits 10 n).head? ≠ some '0' := by
  have hdigit : ∀ d < 10, 0 < d → some (Nat.digitChar d) ≠ some '0' := by decide
  induction n using Nat.strongRecOn with
  | ind n ih =>
    by_cases hsmall : n < 10
    · rw [Nat.toDigits_of_lt_base hsmall]
      exact hdigit n hsmall hn
    · rw [Nat.toDigits_of_base_le (by decide) (Nat.le_of_not_lt hsmall),
        List.head?_append_of_ne_nil _ Nat.toDigits_ne_nil]
      exact ih _ (Nat.div_lt_self hn (by decide))
        (Nat.div_pos (Nat.le_of_not_lt hsmall) (by decide))

theorem le_ofDigitChars (s : List Char) (n : Nat) : n ≤ Nat.ofDigitChars 10 s n := by
  induction s generalizing n with
  | nil => exact Nat.le_refl n
  | cons c s ih =>
    rw [Nat.ofDigitChars_cons]
    exact Nat.le_trans (by omega) (ih _)

/-- Digits that all fit the word leave nothing over. -/
theorem gather_eq {s : List Char} {word : Nat}
    (h : Nat.ofDigitChars 10 s word < 0x1_0000_0000_0000_0000) :
    gather word s = (Nat.ofDigitChars 10 s word, []) := by
  induction s generalizing word with
  | nil => rfl
  | cons c s ih =>
    rw [Nat.ofDigitChars_cons, Nat.mul_comm] at h ⊢
    have hnext := Nat.lt_of_le_of_lt (le_ofDigitChars s _) h
    rw [gather, if_pos hnext]
    exact ih h

theorem wholeDigits?_toString (n : Nat) :
    wholeDigits? (toString n).toList = some ((toString n).toList, []) := by
  have hdigits : ∀ c ∈ (toString n).toList, isDigit c = true := fun c => isDigit_of_mem_toString
  have htake : (toString n).toList.takeWhile isDigit = (toString n).toList :=
    List.takeWhile_eq_self_iff.2 hdigits
  have hdrop : (toString n).toList.dropWhile isDigit = [] := List.dropWhile_eq_nil_iff.2 hdigits
  unfold wholeDigits?
  rw [htake, hdrop]
  split
  · rename_i hnil
    exact absurd hnil (toString_ne_nil n)
  · rename_i a s hzero
    -- a zero stands in front of other digits nowhere, and zero is one digit
    rcases Nat.eq_zero_or_pos n with rfl | hp
    · exact absurd hzero nofun
    · refine absurd ?_ (head?_toDigits_ne_zero hp)
      rw [← toList_toString, hzero]
      rfl
  · rfl

/-- Safe whole numbers are read from their text. -/
theorem readNumeral?_whole {n : Int} (hn : n.natAbs ≤ maxSafe) :
    readNumeral? (Numeral.whole n).text.toList = some (.whole n, []) := by
  have hread : ∀ (negative : Bool) (k : Nat), readUnsigned? negative (toString k).toList =
      (numeral? negative (toString k).toList [] none).map fun m => (m, []) := by
    intro negative k
    unfold readUnsigned?
    rw [wholeDigits?_toString]
    show (numeral? negative _ [] none).bind _ = _
    cases numeral? negative (toString k).toList [] none with
    | none => rfl
    | some m => rfl
  have hgather : ∀ k ≤ maxSafe, gather 0 (toString k).toList = (k, []) := by
    intro k hk
    have hvalue : Nat.ofDigitChars 10 (toString k).toList 0 = k := by
      rw [toList_toString, Nat.ofDigitChars_ten_toDigits]
    rw [gather_eq, hvalue]
    rw [hvalue]
    exact Nat.lt_of_le_of_lt hk (by decide)
  unfold Numeral.text
  cases n with
  | ofNat k =>
    have hk : k ≤ maxSafe := hn
    have hunsigned : readNumeral? (toString k).toList =
        readUnsigned? false (toString k).toList := by
      unfold readNumeral?
      split
      · rename_i hm
        have hmem : '-' ∈ (toString k).toList := hm ▸ List.mem_cons_self
        exact absurd hmem (not_mem_toString rfl k)
      · rfl
    show readNumeral? (toString k).toList = _
    rw [hunsigned, hread]
    unfold numeral?
    rw [hgather k hk]
    rfl
  | negSucc k =>
    have hk : k + 1 ≤ maxSafe := hn
    have htext : (toString (Int.negSucc k)).toList = '-' :: (toString (k + 1)).toList := by
      show ("-" ++ toString (k + 1)).toList = _
      rw [String.toList_append]
      rfl
    rw [htext]
    show readUnsigned? true (toString (k + 1)).toList = _
    rw [hread]
    unfold numeral?
    rw [hgather (k + 1) hk]
    have hword : ¬(k + 1 = 0 ∨ 0x8000_0000_0000_0000 < k + 1) := by
      unfold maxSafe at hk
      omega
    show (if k + 1 = 0 ∨ 0x8000_0000_0000_0000 < k + 1 then _ else _ : Option Numeral).map _ = _
    rw [if_neg hword]
    rfl

def Gap (g : List Char) : Prop :=
  ∀ c ∈ g, isGap c = true

theorem skip_gap {g : List Char} (hg : Gap g) {c : Char} (hc : isGap c = false) (s : List Char) :
    skip (g ++ c :: s) = c :: s := by
  unfold skip
  rw [List.dropWhile_append_of_pos hg, List.dropWhile_cons_of_neg (by simp [hc])]

/-- The reader finds the value at the start of the text, and stops in front of the rest. -/
def Finds {α : Type} {s : List Char} (found : Read α s) (a : α) (rest : List Char) : Prop :=
  found.map (fun (a, r) => (a, r.1)) = some (a, rest)

section

variable {room : Nat} {s r rest : List Char}

theorem Finds.eq_some {α : Type} {found : Read α s} {a : α} (h : Finds found a rest) :
    ∃ h, found = some (a, ⟨rest, h⟩) := by
  obtain ⟨⟨_, ⟨_, hr⟩⟩, hf, he⟩ := Option.map_eq_some_iff.1 h
  obtain ⟨rfl, rfl⟩ := Prod.mk.inj he
  exact ⟨hr, hf⟩

/-- What a step makes of the character behind the white space, and of what follows it. -/
inductive Step : Nat → Char → List Char → Json → List Char → Prop where
  | string {room : Nat} {r t rest : List Char} (h : stringBody [] r = some (t, rest)) :
      Step room '\x22' r (.string (String.ofList t)) rest
  | keyword {room : Nat} {c : Char} {r rest : List Char} {v : Json}
      (h : keyword? (c :: r) = some (v, rest)) : Step room c r v rest
  | numeral {room : Nat} {c : Char} {r rest : List Char} {n : Numeral}
      (h : readNumeral? (c :: r) = some (n, rest)) : Step room c r (.number n) rest
  | noItems {room : Nat} {r rest : List Char} (h : skip r = ']' :: rest) :
      Step (room + 1) '[' r (.array []) rest
  | items {room : Nat} {r rest : List Char} {items : List Json}
      (h : Finds (items? room r) items rest) : Step (room + 1) '[' r (.array items) rest
  | noEntries {room : Nat} {r rest : List Char} (h : skip r = '\x7d' :: rest) :
      Step (room + 1) '\x7b' r (.object []) rest
  | entries {room : Nat} {r rest : List Char} {entries : List (String × Json)}
      (h : Finds (entries? room r) entries rest) :
      Step (room + 1) '\x7b' r (.ofEntries entries) rest

/-- A word begins with a letter. -/
theorem not_special_of_keyword? {c : Char} {v : Json} (h : keyword? (c :: r) = some (v, rest)) :
    c ≠ '[' ∧ c ≠ '\x7b' ∧ c ≠ '\x22' := by
  unfold keyword? at h
  split at h
  · rename_i he
    obtain ⟨rfl, -⟩ := List.cons.inj he
    decide
  · rename_i he
    obtain ⟨rfl, -⟩ := List.cons.inj he
    decide
  · rename_i he
    obtain ⟨rfl, -⟩ := List.cons.inj he
    decide
  · contradiction

theorem wholeDigits?_of_not_digit {c : Char} (hc : isDigit c = false) (r : List Char) :
    wholeDigits? (c :: r) = none := by
  unfold wholeDigits?
  rw [List.takeWhile_cons_of_neg (by simp [hc])]

/-- A number begins with a digit or a sign. -/
theorem start_of_readNumeral? {c : Char} {n : Numeral}
    (h : readNumeral? (c :: r) = some (n, rest)) : c = '-' ∨ isDigit c = true := by
  by_contra hc
  obtain ⟨hm, hd⟩ := not_or.1 hc
  have hplain : readNumeral? (c :: r) = readUnsigned? false (c :: r) := by
    rw [readNumeral?]
    exact fun r hr => hm (List.cons.inj hr).1
  rw [hplain] at h
  unfold readUnsigned? at h
  rw [wholeDigits?_of_not_digit (Bool.eq_false_iff.2 hd)] at h
  contradiction

theorem not_special_of_readNumeral? {c : Char} {n : Numeral}
    (h : readNumeral? (c :: r) = some (n, rest)) : c ≠ '[' ∧ c ≠ '\x7b' ∧ c ≠ '\x22' := by
  have hc := start_of_readNumeral? h
  refine ⟨?_, ?_, ?_⟩
  · rintro rfl
    exact absurd hc (by decide)
  · rintro rfl
    exact absurd hc (by decide)
  · rintro rfl
    exact absurd hc (by decide)

theorem keyword?_of_readNumeral? {c : Char} {n : Numeral}
    (h : readNumeral? (c :: r) = some (n, rest)) : keyword? (c :: r) = none := by
  have hc := start_of_readNumeral? h
  unfold keyword?
  split
  · rename_i he
    obtain ⟨rfl, -⟩ := List.cons.inj he
    exact absurd hc (by decide)
  · rename_i he
    obtain ⟨rfl, -⟩ := List.cons.inj he
    exact absurd hc (by decide)
  · rename_i he
    obtain ⟨rfl, -⟩ := List.cons.inj he
    exact absurd hc (by decide)
  · rfl

theorem value?_of_bracket (hs : skip s = ']' :: r) : value? room s = none := by
  have hk : keyword? (']' :: r) = none := rfl
  have hn : readNumeral? (']' :: r) = none := by
    cases h : readNumeral? (']' :: r) with
    | none => rfl
    | some found =>
      obtain ⟨n, rest⟩ := found
      exact absurd (start_of_readNumeral? h) (by decide)
  rw [value?]
  split
  · rfl
  · rename_i c r' h
    obtain ⟨rfl, rfl⟩ := List.cons.inj (hs.symm.trans h)
    dsimp only
    rw [if_neg (by decide), if_neg (by decide), if_neg (by decide)]
    split
    · rename_i h
      rw [hk] at h
      contradiction
    · split
      · rename_i h
        rw [hn] at h
        contradiction
      · rfl

theorem Finds.not_bracket {items : List Json} (h : Finds (items? room s) items rest)
    (r : List Char) : skip s ≠ ']' :: r := by
  intro hs
  obtain ⟨_, h⟩ := h.eq_some
  rw [items?, value?_of_bracket hs] at h
  contradiction

theorem Finds.not_brace {entries : List (String × Json)} (h : Finds (entries? room s) entries rest)
    (r : List Char) : skip s ≠ '\x7d' :: r := by
  intro hs
  obtain ⟨_, h⟩ := h.eq_some
  rw [entries?] at h
  split at h
  · rename_i hs'
    rw [hs] at hs'
    exact absurd (List.cons.inj hs').1 (by decide)
  · contradiction

theorem finds_of_step {c : Char} {v : Json} (hs : skip s = c :: r) (h : Step room c r v rest) :
    Finds (value? room s) v rest := by
  unfold Finds
  rw [value?]
  split
  · rename_i h
    rw [hs] at h
    contradiction
  · rename_i c' r' hs'
    obtain ⟨rfl, rfl⟩ := List.cons.inj (hs.symm.trans hs')
    dsimp only
    -- every step is what is left when the tests before it have failed
    cases h with
    | string hb =>
      rw [if_neg (by decide), if_neg (by decide), if_pos rfl]
      split
      · rename_i h
        obtain ⟨rfl, rfl⟩ := Prod.mk.inj (Option.some.inj (hb.symm.trans h))
        rfl
      · rename_i h
        rw [hb] at h
        contradiction
    | keyword hk =>
      obtain ⟨h₁, h₂, h₃⟩ := not_special_of_keyword? hk
      rw [if_neg h₁, if_neg h₂, if_neg h₃]
      split
      · rename_i h
        obtain ⟨rfl, rfl⟩ := Prod.mk.inj (Option.some.inj (hk.symm.trans h))
        rfl
      · rename_i h
        rw [hk] at h
        contradiction
    | numeral hn =>
      obtain ⟨h₁, h₂, h₃⟩ := not_special_of_readNumeral? hn
      have hk := keyword?_of_readNumeral? hn
      rw [if_neg h₁, if_neg h₂, if_neg h₃]
      split
      · rename_i h
        rw [hk] at h
        contradiction
      · split
        · rename_i h
          obtain ⟨rfl, rfl⟩ := Prod.mk.inj (Option.some.inj (hn.symm.trans h))
          rfl
        · rename_i h
          rw [hn] at h
          contradiction
    | noItems hr =>
      rw [if_pos rfl]
      dsimp only
      split
      · rename_i h
        obtain ⟨-, rfl⟩ := List.cons.inj (hr.symm.trans h)
        rfl
      · rename_i hne
        exact absurd hr (hne rest)
    | items h =>
      rw [if_pos rfl]
      dsimp only
      split
      · rename_i hr
        exact absurd hr (h.not_bracket _)
      · obtain ⟨_, h⟩ := h.eq_some
        rw [h]
        rfl
    | noEntries hr =>
      rw [if_neg (by decide), if_pos rfl]
      dsimp only
      split
      · rename_i h
        obtain ⟨-, rfl⟩ := List.cons.inj (hr.symm.trans h)
        rfl
      · rename_i hne
        exact absurd hr (hne rest)
    | entries h =>
      rw [if_neg (by decide), if_pos rfl]
      dsimp only
      split
      · rename_i hr
        exact absurd hr (h.not_brace _)
      · obtain ⟨_, h⟩ := h.eq_some
        rw [h]
        rfl

/-- Behind one part, the text is closed, or goes on with more parts. -/
inductive GoesOn {α : Type} (close : Char) (parts? : (s : List Char) → Read (List α) s)
    (r : List Char) : List α → List Char → Prop where
  | last {rest : List Char} (h : skip r = close :: rest) : GoesOn close parts? r [] rest
  | more {s rest : List Char} {parts : List α} (h : skip r = ',' :: s)
      (hparts : Finds (parts? s) parts rest) : GoesOn close parts? r parts rest

theorem finds_items {v : Json} {items : List Json} (hv : Finds (value? room s) v r)
    (hr : GoesOn ']' (items? room) r items rest) : Finds (items? room s) (v :: items) rest := by
  obtain ⟨_, hv⟩ := hv.eq_some
  unfold Finds
  rw [items?, hv]
  dsimp only
  -- the character behind the item tells whether there is another one
  cases hr with
  | last hr =>
    split
    · rename_i h
      obtain ⟨-, rfl⟩ := List.cons.inj (hr.symm.trans h)
      rfl
    · rename_i h
      exact absurd (List.cons.inj (hr.symm.trans h)).1 (by decide)
    · rename_i hne _
      exact absurd hr (hne rest)
  | more hr hitems =>
    split
    · rename_i h
      exact absurd (List.cons.inj (hr.symm.trans h)).1 (by decide)
    · rename_i h
      obtain ⟨-, rfl⟩ := List.cons.inj (hr.symm.trans h)
      obtain ⟨_, hitems⟩ := hitems.eq_some
      rw [hitems]
      rfl
    · rename_i hne
      exact absurd hr (hne _)

theorem finds_entries {key t body r' : List Char} {v : Json} {entries : List (String × Json)}
    (hs : skip s = '\x22' :: r) (hk : stringBody [] r = some (key, t))
    (hc : skip t = ':' :: body) (hv : Finds (value? room body) v r')
    (hr : GoesOn '\x7d' (entries? room) r' entries rest) :
    Finds (entries? room s) ((String.ofList key, v) :: entries) rest := by
  obtain ⟨_, hv⟩ := hv.eq_some
  unfold Finds
  rw [entries?]
  -- the key between its quotes, the colon, the value, and what tells of another entry
  split
  · rename_i h
    obtain ⟨-, rfl⟩ := List.cons.inj (hs.symm.trans h)
    split
    · rename_i h
      rw [hk] at h
      contradiction
    · rename_i h
      obtain ⟨rfl, rfl⟩ := Prod.mk.inj (Option.some.inj (hk.symm.trans h))
      split
      · rename_i h
        obtain ⟨-, rfl⟩ := List.cons.inj (hc.symm.trans h)
        rw [hv]
        dsimp only
        cases hr with
        | last hr =>
          split
          · rename_i h
            obtain ⟨-, rfl⟩ := List.cons.inj (hr.symm.trans h)
            rfl
          · rename_i h
            exact absurd (List.cons.inj (hr.symm.trans h)).1 (by decide)
          · rename_i hne _
            exact absurd hr (hne rest)
        | more hr hentries =>
          split
          · rename_i h
            exact absurd (List.cons.inj (hr.symm.trans h)).1 (by decide)
          · rename_i h
            obtain ⟨-, rfl⟩ := List.cons.inj (hr.symm.trans h)
            obtain ⟨_, hentries⟩ := hentries.eq_some
            rw [hentries]
            rfl
          · rename_i hne
            exact absurd hr (hne _)
      · rename_i hne
        exact absurd hc (hne body)
  · rename_i hne
    exact absurd hs (hne r)

end

end Workflow.Json
