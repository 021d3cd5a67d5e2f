import Mathlib.Data.List.Basic
import Workflow.Json.Printer
import Workflow.Proofs.Expr.Tokens

/-! How JSON text is cut into tokens of expressions. -/
namespace Workflow

/-- The tokens that spell a number; its sign is a token of its own. -/
def Numeral.tokens : Numeral → List Token
  | .whole n =>
    if n < 0 then [.mark .minus, .number (Number.ofDecimal n.natAbs 0)]
    else [.number (Number.ofDecimal n.natAbs 0)]
  | .double x => [.number x]

def Numeral.Safe : Numeral → Prop
  | .whole n => n.natAbs ≤ Number.maxSafe
  | .double _ => False

namespace Json

/-- A text between quotes. -/
def quotedChars (s : String) : List Char :=
  '\x22' :: (s.toList.flatMap escapeChar ++ ['\x22'])

mutual

/-- The characters of the text of a value. -/
def chars : Json → List Char
  | .null => "null".toList
  | .bool b => (if b then "true" else "false").toList
  | .number n => n.text.toList
  | .string s => quotedChars s
  | .array items => '[' :: (itemChars true items ++ [']'])
  | .object entries => '\x7b' :: (entryChars true entries ++ ['\x7d'])
termination_by structural v => v

def itemChars (first : Bool) : List Json → List Char
  | [] => []
  | v :: rest => (if first then [] else [',']) ++ (v.chars ++ itemChars false rest)
termination_by structural items => items

def entryChars (first : Bool) : List (String × Json) → List Char
  | [] => []
  | (key, v) :: rest =>
    (if first then [] else [',']) ++
      (quotedChars key ++ ':' :: (v.chars ++ entryChars false rest))
termination_by structural entries => entries

end

theorem toList_writeString (out s : String) :
    (writeString out s).toList = out.toList ++ quotedChars s := by
  have hpush : ∀ (cs : List Char) (out : String),
      (cs.foldl String.push out).toList = out.toList ++ cs := by
    intro cs
    induction cs with
    | nil => exact fun out => (List.append_nil _).symm
    | cons c cs ih =>
      intro out
      rw [List.foldl_cons, ih, String.toList_push, List.append_assoc]
      rfl
  have hescape : ∀ (cs : List Char) (out : String),
      (cs.foldl (fun out c => (escapeChar c).foldl String.push out) out).toList =
        out.toList ++ cs.flatMap escapeChar := by
    intro cs
    induction cs with
    | nil => exact fun out => (List.append_nil _).symm
    | cons c cs ih =>
      intro out
      rw [List.foldl_cons, ih, hpush, List.flatMap_cons, List.append_assoc]
  unfold writeString quotedChars
  rw [String.toList_push, hescape, String.toList_push, List.append_assoc, List.append_assoc]
  rfl

/-- A comma in front of everything but the first. -/
theorem toList_separated (first : Bool) (out : String) :
    (if first then out else out.push ',').toList =
      out.toList ++ (if first then [] else [',']) := by
  cases first with
  | true => exact (List.append_nil _).symm
  | false => exact String.toList_push ','

mutual

/-- The writer puts the characters of a value behind what was written before. -/
theorem toList_write : (v : Json) → (out : String) → (write out v).toList = out.toList ++ v.chars
  | .null, out | .bool _, out | .number _, out => String.toList_append
  | .string s, out => toList_writeString out s
  | .array items, out => by
    rw [write, String.toList_push, toList_writeItems items true, String.toList_push,
      List.append_assoc, List.append_assoc]
    rfl
  | .object entries, out => by
    rw [write, String.toList_push, toList_writeEntries entries true, String.toList_push,
      List.append_assoc, List.append_assoc]
    rfl
termination_by structural v => v

theorem toList_writeItems : (items : List Json) → (first : Bool) → (out : String) →
    (writeItems out first items).toList = out.toList ++ itemChars first items
  | [], _, _ => (List.append_nil _).symm
  | v :: rest, first, out => by
    rw [writeItems, toList_writeItems rest, toList_write v, toList_separated, itemChars,
      List.append_assoc, List.append_assoc]
termination_by structural items => items

theorem toList_writeEntries : (entries : List (String × Json)) → (first : Bool) →
    (out : String) →
      (writeEntries out first entries).toList = out.toList ++ entryChars first entries
  | [], _, _ => (List.append_nil _).symm
  | (key, v) :: rest, first, out => by
    rw [writeEntries, toList_writeEntries rest, toList_write v, String.toList_push,
      toList_writeString, toList_separated, entryChars]
    simp only [List.append_assoc, List.cons_append, List.nil_append]
termination_by structural entries => entries

end

mutual

/-- The tokens that spell a value. -/
def tokens : Json → List Token
  | .null => [.name "null"]
  | .bool b => [.name (if b then "true" else "false")]
  | .number n => n.tokens
  | .string s => [.string s]
  | .array items => .mark .leftBracket :: (itemTokens true items ++ [.mark .rightBracket])
  | .object entries => .mark .leftBrace :: (entryTokens true entries ++ [.mark .rightBrace])
termination_by structural v => v

def itemTokens (first : Bool) : List Json → List Token
  | [] => []
  | v :: rest => (if first then [] else [.mark .comma]) ++ (v.tokens ++ itemTokens false rest)
termination_by structural items => items

def entryTokens (first : Bool) : List (String × Json) → List Token
  | [] => []
  | (key, v) :: rest =>
    (if first then [] else [.mark .comma]) ++
      (.string key :: .mark .colon :: (v.tokens ++ entryTokens false rest))
termination_by structural entries => entries

end

mutual

/-- All numbers are safe whole numbers, and entries stand in the order of their keys. -/
def Safe : Json → Prop
  | .number n => n.Safe
  | .array items => SafeItems items
  | .object entries => Fields.Sorted entries ∧ SafeEntries entries
  | .null | .bool _ | .string _ => True
termination_by structural v => v

def SafeItems : List Json → Prop
  | [] => True
  | v :: rest => v.Safe ∧ SafeItems rest
termination_by structural items => items

def SafeEntries : List (String × Json) → Prop
  | [] => True
  | (_, v) :: rest => v.Safe ∧ SafeEntries rest
termination_by structural entries => entries

end

end Json

namespace Lexer

open Text

/-- A control character in its escaped form is read back. -/
theorem escape_control {c : Char} (hc : c.toNat < 0x20) (rest : List Char) :
    escape ('u' :: '0' :: '0' :: (padLeft 2 '0' (Text.ofNat 16 c.toNat) ++ rest)) =
      .ok (c, rest) := by
  have hall : ∀ n < 0x20, (padLeft 2 '0' (Text.ofNat 16 n)).length = 2 ∧
      unsigned? 16 0x1_0000_0000 ('0' :: '0' :: padLeft 2 '0' (Text.ofNat 16 n)) = some n := by
    decide +kernel
  obtain ⟨hlength, hvalue⟩ := hall c.toNat hc
  -- two digits, so that the four digits of the escape are those read
  obtain ⟨a, b, hab⟩ := List.length_eq_two.1 hlength
  rw [hab] at hvalue ⊢
  show unicodeEscape ['0', '0', a, b] rest = _
  unfold unicodeEscape
  rw [hvalue]
  dsimp only
  rw [if_pos (show c.toNat.isValidChar from c.valid), Char.ofNat_toNat]

/-- What is written for a character between quotes is read as the character. -/
theorem string_escapeChar (c : Char) (done rest : List Char) :
    string '\x22' done (Json.escapeChar c ++ rest) = string '\x22' (c :: done) rest := by
  have hescaped {s : List Char} (hs : escape s = .ok (c, rest)) :
      string '\x22' done ('\\' :: s) = string '\x22' (c :: done) rest :=
    string_escape (by decide) hs
  unfold Json.escapeChar
  -- the seven short escapes, the other control characters, and what is written as it is
  split_ifs with hq hb h₁ h₂ h₃ h₄ h₅ hcontrol
  · subst hq
    exact hescaped rfl
  · subst hb
    exact hescaped rfl
  · subst h₁
    exact hescaped rfl
  · subst h₂
    exact hescaped rfl
  · subst h₃
    exact hescaped rfl
  · subst h₄
    exact hescaped rfl
  · subst h₅
    exact hescaped rfl
  · exact hescaped (escape_control hcontrol rest)
  · rw [List.singleton_append, string, if_neg hq, if_neg hb]

theorem string_escaped (s done rest : List Char) :
    string '\x22' done (s.flatMap Json.escapeChar ++ '\x22' :: rest) =
      .ok (.string (String.ofList (done.reverse ++ s)), rest) := by
  induction s generalizing done with
  | nil => rw [List.flatMap_nil, List.nil_append, string, if_pos rfl, List.append_nil]
  | cons c s ih =>
    rw [List.flatMap_cons, List.append_assoc, string_escapeChar, ih, List.reverse_cons,
      List.append_assoc]
    rfl

theorem Reads.escaped {after : List Char} {ts : List Token} (h : Reads after ts) (s : String) :
    Reads ('\x22' :: (s.toList.flatMap Json.escapeChar ++ '\x22' :: after)) (.string s :: ts) := by
  have hs := string_escaped s.toList [] after
  rw [List.reverse_nil, List.nil_append, String.ofList_toList] at hs
  exact h.token (by decide) hs

/-- If no name or number goes on behind the text, it is cut into these tokens. -/
def Spelled (s : List Char) (ts : List Token) : Prop :=
  ∀ rest after, EndsNumber rest → Reads rest after → Reads (s ++ rest) (ts ++ after)

/-- No name or number goes on with the text, if none goes on behind it. -/
def Ends (s : List Char) : Prop :=
  ∀ rest, EndsNumber rest → EndsNumber (s ++ rest)

/-- The character is a mark whatever follows it, and ends names and numbers. -/
structure Stands (c : Char) (m : Mark) : Prop where
  ends : isNamePart c = false ∧ c ≠ '.'
  blank : isBlank c = false
  token : ∀ rest, token c rest = .ok (.mark m, rest)

theorem stands_comma : Stands ',' .comma :=
  ⟨by decide, by decide, fun _ => rfl⟩

theorem stands_colon : Stands ':' .colon :=
  ⟨by decide, by decide, fun _ => rfl⟩

theorem stands_minus : Stands '-' .minus :=
  ⟨by decide, by decide, fun _ => rfl⟩

theorem stands_leftBracket : Stands '[' .leftBracket :=
  ⟨by decide, by decide, fun _ => rfl⟩

theorem stands_rightBracket : Stands ']' .rightBracket :=
  ⟨by decide, by decide, fun _ => rfl⟩

theorem stands_leftBrace : Stands '\x7b' .leftBrace :=
  ⟨by decide, by decide, fun _ => rfl⟩

theorem stands_rightBrace : Stands '\x7d' .rightBrace :=
  ⟨by decide, by decide, fun _ => rfl⟩

theorem Stands.ends_cons {c : Char} {m : Mark} (h : Stands c m) (s : List Char) :
    Ends (c :: s) := by
  intro rest _ d hd
  obtain rfl := Option.some.inj hd
  exact h.ends

namespace Spelled

variable {s s' : List Char} {ts ts' : List Token}

theorem nil : Spelled [] [] :=
  fun _ _ _ h => h

theorem append (h : Spelled s ts) (hs : Ends s') (h' : Spelled s' ts') :
    Spelled (s ++ s') (ts ++ ts') := by
  intro rest after hr ha
  rw [List.append_assoc, List.append_assoc]
  exact h _ _ (hs rest hr) (h' rest after hr ha)

theorem mark {c : Char} {m : Mark} (hc : Stands c m) (h : Spelled s ts) :
    Spelled (c :: s) (.mark m :: ts) :=
  fun rest after hr ha => (h rest after hr ha).token hc.blank (hc.token _)

theorem name {x : String} (hx : IsIdent x.toList) : Spelled x.toList [.name x] := by
  intro rest after hr ha
  have hn := ha.name hx fun c hc => (hr c hc).1
  rwa [String.ofList_toList] at hn

theorem digits (n : Nat) : Spelled (toString n).toList [.number (Number.ofDecimal n 0)] :=
  fun _ _ hr ha => ha.digits n hr

theorem quoted (x : String) (h : Spelled s ts) :
    Spelled (Json.quotedChars x ++ s) (.string x :: ts) := by
  intro rest after hr ha
  have hq := (h rest after hr ha).escaped x
  unfold Json.quotedChars
  rwa [List.cons_append, List.cons_append, List.append_assoc, List.append_assoc]

end Spelled

end Lexer

open Lexer

theorem Numeral.spelled (n : Int) :
    Spelled (Numeral.whole n).text.toList (Numeral.whole n).tokens := by
  unfold Numeral.text Numeral.tokens
  dsimp only
  -- the text of a negative number is cut into the sign and the digits
  cases n with
  | ofNat n =>
    rw [if_neg (show ¬Int.ofNat n < 0 from Int.not_lt.2 (Int.natCast_nonneg n))]
    exact .digits n
  | negSucc n =>
    rw [if_pos (Int.negSucc_lt_zero n)]
    show Spelled ("-" ++ toString (n + 1)).toList _
    rw [String.toList_append]
    exact .mark stands_minus (.digits (n + 1))

namespace Json

/-- A comma in front of everything but the first. -/
theorem spelled_separated (first : Bool) {s : List Char} {ts : List Token} (h : Spelled s ts) :
    Spelled ((if first then [] else [',']) ++ s) ((if first then [] else [.mark .comma]) ++ ts) := by
  cases first with
  | true => exact h
  | false => exact .mark stands_comma h

theorem ends_itemChars (items : List Json) : Ends (itemChars false items) := by
  cases items with
  | nil => exact fun _ h => h
  | cons v rest => exact stands_comma.ends_cons _

theorem ends_entryChars (entries : List (String × Json)) : Ends (entryChars false entries) := by
  cases entries with
  | nil => exact fun _ h => h
  | cons v rest => exact stands_comma.ends_cons _

mutual

/-- The text of a value is cut into its tokens. -/
theorem spelled_chars : (v : Json) → v.Safe → Spelled v.chars v.tokens
  | .null, _ => .name (by decide)
  | .bool true, _ => .name (by decide)
  | .bool false, _ => .name (by decide)
  | .number (.whole n), _ => Numeral.spelled n
  | .string s, _ => by
    have h := Spelled.quoted s .nil
    rwa [List.append_nil] at h
  | .array items, h =>
    .mark stands_leftBracket ((spelled_itemChars items h true).append
      (stands_rightBracket.ends_cons []) (.mark stands_rightBracket .nil))
  | .object entries, ⟨_, h⟩ =>
    .mark stands_leftBrace ((spelled_entryChars entries h true).append
      (stands_rightBrace.ends_cons []) (.mark stands_rightBrace .nil))
termination_by structural v => v

theorem spelled_itemChars : (items : List Json) → SafeItems items → (first : Bool) →
    Spelled (itemChars first items) (itemTokens first items)
  | [], _, _ => .nil
  | v :: rest, ⟨hv, hrest⟩, first =>
    spelled_separated first
      ((spelled_chars v hv).append (ends_itemChars rest) (spelled_itemChars rest hrest false))
termination_by structural items => items

theorem spelled_entryChars : (entries : List (String × Json)) → SafeEntries entries →
    (first : Bool) → Spelled (entryChars first entries) (entryTokens first entries)
  | [], _, _ => .nil
  | (key, v) :: rest, ⟨hv, hrest⟩, first =>
    spelled_separated first (.quoted key (.mark stands_colon
      ((spelled_chars v hv).append (ends_entryChars rest) (spelled_entryChars rest hrest false))))
termination_by structural entries => entries

end

/-- The compact text of a value is cut into its tokens. -/
theorem tokenize_compact {v : Json} (hv : v.Safe) :
    ∃ spanned : List Spanned, tokenize v.compact = .ok spanned ∧
      spanned.map Spanned.token = v.tokens ++ [.stop] := by
  have hends : EndsNumber [] := fun c hc => by contradiction
  have h := spelled_chars v hv [] [.stop] hends reads_nil
  have hchars : v.compact.toList = v.chars ++ [] := by
    rw [List.append_nil]
    exact toList_write v ""
  unfold tokenize
  rw [hchars]
  exact h _ []

end Json

end Workflow
