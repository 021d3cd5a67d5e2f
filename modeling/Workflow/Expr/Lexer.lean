import Workflow.Expr.Token
import Workflow.Number.Literal
import Workflow.Text.Blank
import Workflow.Unicode.Alphanumeric

/-! Cutting the text of an expression into tokens. Each reader takes the text from its own place on
and gives back what it leaves. -/
namespace Workflow

namespace Lexer

open Text Number

/-- A malformation and the text behind it. -/
structure Halt where
  cause : Malformation
  rest : List Char

abbrev Step (α : Type) :=
  Except Halt (α × List Char)

def isNameStart (c : Char) : Bool :=
  Unicode.isAlphabetic c || c = '_' || c = '$'

def isNamePart (c : Char) : Bool :=
  isNameStart c || Unicode.isNumeric c

/-- A hexadecimal number behind its `0x`. -/
def hexNumber (s : List Char) : Step Token :=
  let isHex (c : Char) := (digit? 16 c).isSome
  let rest := s.dropWhile isHex
  match (digits? 16 (s.takeWhile isHex)).filter (· < 0x8000_0000_0000_0000) with
  | some n => .ok (.number (Float.ofNat n), rest)
  | none => .error ⟨.invalidHex, rest⟩

/-- The digits behind a point and what follows them. A point belongs to the number unless a name or
another point follows it. -/
def fraction (s : List Char) : List Char × List Char :=
  match s with
  | '.' :: rest =>
    match rest with
    | [] => ([], [])
    | d :: _ =>
      if isDigit d then (rest.takeWhile isDigit, rest.dropWhile isDigit)
      else if isNameStart d ∨ d = '.' then ([], s)
      else ([], rest)
  | _ => ([], s)

/-- A decimal number. -/
def decimalNumber (s : List Char) : Step Token :=
  let whole := s.takeWhile isDigit
  let (places, tail) := fraction (s.dropWhile isDigit)
  let (exponent, rest) := scanExponent tail
  match (Scanned.mk whole places exponent rest).value? with
  | some x => .ok (.number x, rest)
  | none => .error ⟨.invalidNumber (String.ofList (s.take (s.length - rest.length))), rest⟩

def number (s : List Char) : Step Token :=
  match s with
  | '0' :: 'x' :: rest | '0' :: 'X' :: rest => hexNumber rest
  | _ => decimalNumber s

/-- The character with the given hexadecimal code. -/
def unicodeEscape (code rest : List Char) : Step Char :=
  match unsigned? 16 0x1_0000_0000 code with
  | some n => .ok (if n.isValidChar then Char.ofNat n else '\ufffd', rest)
  | none => .error ⟨.badUnicodeEscape, rest⟩

/-- An escaped character behind its backslash. -/
def escape (s : List Char) : Step Char :=
  match s with
  | [] => .error ⟨.unterminatedEscape, []⟩
  | 'n' :: rest => .ok ('\n', rest)
  | 't' :: rest => .ok ('\t', rest)
  | 'r' :: rest => .ok ('\r', rest)
  | 'b' :: rest => .ok ('\x08', rest)
  | 'f' :: rest => .ok ('\x0c', rest)
  | 'v' :: rest => .ok ('\x0b', rest)
  | '0' :: rest => .ok ('\x00', rest)
  | 'u' :: '\x7b' :: rest =>
    unicodeEscape (rest.takeWhile (· != '\x7d')) ((rest.dropWhile (· != '\x7d')).drop 1)
  | 'u' :: a :: b :: c :: d :: rest => unicodeEscape [a, b, c, d] rest
  | 'u' :: _ => .error ⟨.badUnicodeEscape, []⟩
  | c :: rest => .ok (c, rest)

theorem length_unicodeEscape {code s r : List Char} {c : Char}
    (h : unicodeEscape code s = .ok (c, r)) : r = s := by
  unfold unicodeEscape at h
  split at h <;> cases h
  rfl

theorem length_escape_lt {s r : List Char} {c : Char} (h : escape s = .ok (c, r)) :
    r.length < s.length := by
  unfold escape at h
  split at h
  all_goals first
    | contradiction
    | cases h
      simp only [List.length_cons]
      omega
    | rw [length_unicodeEscape h]
      simp only [List.length_cons, List.length_drop]
      have := fun l : List Char => (List.dropWhile_sublist (l := l) (· != '\x7d')).length_le
      grind

/-- A text up to its closing quote, behind the characters in `done`, last first. -/
def string (quote : Char) (done s : List Char) : Step Token :=
  match s with
  | [] => .error ⟨.unterminatedString, []⟩
  | c :: rest =>
    if c = quote then .ok (.string (String.ofList done.reverse), rest)
    else if c = '\\' then
      match _h : escape rest with
      | .ok (e, rest) => string quote (e :: done) rest
      | .error halt => .error halt
    else string quote (c :: done) rest
termination_by s.length
decreasing_by
  · have := length_escape_lt _h
    simp only [List.length_cons]
    omega
  · simp

/-- The source of a hole up to its closing brace, behind the characters in `done`, last first. -/
def hole? (depth : Nat) (done : List Char) : List Char → Option (List Char × List Char)
  | [] => none
  | c :: rest =>
    if c = '\x7b' then hole? (depth + 1) (c :: done) rest
    else if c = '\x7d' then
      match depth with
      | 0 => some (done.reverse, rest)
      | depth + 1 => hole? depth (c :: done) rest
    else hole? depth (c :: done) rest

theorem length_hole?_lt {depth : Nat} {done s t r : List Char}
    (h : hole? depth done s = some (t, r)) :
    r.length < s.length := by
  induction s generalizing depth done with
  | nil => simp [hole?] at h
  | cons c rest ih =>
    unfold hole? at h
    repeat' split at h
    all_goals first
      | cases h; simp
      | exact Nat.lt_succ_of_lt (ih h)

/-- A text chunk, unless it is empty, in front of chunks that are kept last first. -/
def addText (text : List Char) (chunks : List Chunk) : List Chunk :=
  if text.isEmpty then chunks else .text (String.ofList text.reverse) :: chunks

/-- A template literal up to its closing backtick, behind the characters and chunks that were read,
last first. -/
def template (text : List Char) (chunks : List Chunk) (s : List Char) : Step Token :=
  match s with
  | [] => .error ⟨.unterminatedTemplate, []⟩
  | c :: rest =>
    if c = '\x60' then .ok (.template (addText text chunks).reverse, rest)
    else if c = '\\' then
      match _h : escape rest with
      | .ok (e, rest) => template (e :: text) chunks rest
      | .error halt => .error halt
    else if _hd : c = '$' ∧ rest.head? = some '\x7b' then
      match _h : hole? 0 [] (rest.drop 1) with
      | some (source, rest) =>
        template [] (.source (String.ofList source) :: addText text chunks) rest
      | none => .error ⟨.unterminatedHole, []⟩
    else template (c :: text) chunks rest
termination_by s.length
decreasing_by
  · have := length_escape_lt _h
    simp only [List.length_cons]
    omega
  · have := length_hole?_lt _h
    simp only [List.length_drop, List.length_cons] at *
    omega
  · simp

/-- The longest mark at the start of `s`. A question mark is on its own before a decimal point. -/
def mark? (s : List Char) : Option Mark :=
  Mark.longestFirst.find? fun m =>
    m.spelling.toList.isPrefixOf s &&
      -- in `a?.5:b` the point belongs to the number
      !(m == .questionDot && (s.drop 2).head?.any isDigit)

theorem mark?_isPrefixOf {s : List Char} {m : Mark} (h : mark? s = some m) :
    m.spelling.toList.isPrefixOf s = true := by
  have := List.find?_some h
  simp only [Bool.and_eq_true] at this
  exact this.1

/-- The token at the start of a text that is not blank there. -/
def token (c : Char) (rest : List Char) : Step Token :=
  if isDigit c ∨ (c = '.' ∧ rest.head?.any isDigit) then number (c :: rest)
  else if c = '\x22' ∨ c = '\'' then string c [] rest
  else if c = '\x60' then template [] [] rest
  else if isNameStart c then
    .ok (.name (String.ofList (c :: rest.takeWhile isNamePart)), rest.dropWhile isNamePart)
  else
    match mark? (c :: rest) with
    | some m => .ok (.mark m, rest.drop (m.spelling.length - 1))
    | none => .error ⟨if c = '=' then .assignment else .unexpectedChar c, rest⟩

/-- What a token starts with, and how it is read then. -/
inductive TokenStart (c : Char) (rest : List Char) : Prop
  | number (start : isDigit c ∨ (c = '.' ∧ rest.head?.any isDigit))
      (read : token c rest = number (c :: rest))
  | string (start : c = '\x22' ∨ c = '\'') (read : token c rest = string c [] rest)
  | template (start : c = '\x60') (read : token c rest = template [] [] rest)
  | name (start : isNameStart c)
      (read : token c rest = .ok
        (.name (String.ofList (c :: rest.takeWhile isNamePart)), rest.dropWhile isNamePart))
  | mark {m : Mark} (start : mark? (c :: rest) = some m)
      (none_other : isDigit c = false ∧ ¬ (c = '\x22' ∨ c = '\'') ∧ c ≠ '\x60' ∧ ¬ isNameStart c)
      (read : token c rest = .ok (.mark m, rest.drop (m.spelling.length - 1)))
  | none
      (read : token c rest = .error ⟨if c = '=' then .assignment else .unexpectedChar c, rest⟩)

theorem token_of_number {c : Char} {rest : List Char}
    (h : isDigit c ∨ (c = '.' ∧ rest.head?.any isDigit)) : token c rest = number (c :: rest) :=
  if_pos h

theorem token_of_string {c : Char} {rest : List Char} (h : c = '\x22' ∨ c = '\'') :
    token c rest = string c [] rest := by
  rcases h with rfl | rfl
  · rfl
  · rfl

theorem token_of_template (rest : List Char) : token '\x60' rest = template [] [] rest :=
  rfl

theorem token_of_mark {c : Char} {rest : List Char} {m : Mark}
    (hn : ¬ (isDigit c ∨ (c = '.' ∧ rest.head?.any isDigit)))
    (hc : ¬ (c = '\x22' ∨ c = '\'') ∧ c ≠ '\x60' ∧ ¬ isNameStart c)
    (hm : mark? (c :: rest) = some m) :
    token c rest = .ok (.mark m, rest.drop (m.spelling.length - 1)) := by
  obtain ⟨hquote, htick, hname⟩ := hc
  rw [token, if_neg hn, if_neg hquote, if_neg htick, if_neg hname, hm]

theorem tokenStart (c : Char) (rest : List Char) : TokenStart c rest := by
  by_cases hn : isDigit c ∨ (c = '.' ∧ rest.head?.any isDigit)
  · exact .number hn (token_of_number hn)
  by_cases hquote : c = '\x22' ∨ c = '\''
  · exact .string hquote (token_of_string hquote)
  by_cases htick : c = '\x60'
  · subst htick
    exact .template rfl (token_of_template rest)
  by_cases hname : isNameStart c
  · exact .name hname (by rw [token, if_neg hn, if_neg hquote, if_neg htick, if_pos hname])
  have hdigit : isDigit c = false := Bool.eq_false_iff.2 fun h => hn (Or.inl h)
  cases hm : mark? (c :: rest) with
  | some m =>
    have hother := And.intro hquote (And.intro htick hname)
    exact .mark hm ⟨hdigit, hother⟩ (token_of_mark hn hother hm)
  | none =>
    exact .none (by rw [token, if_neg hn, if_neg hquote, if_neg htick, if_neg hname, hm])

theorem length_hexNumber_le {s r : List Char} {t : Token} (h : hexNumber s = .ok (t, r)) :
    r.length ≤ s.length := by
  dsimp only [hexNumber] at h
  split at h <;> cases h
  exact length_dropWhile_le _ s

theorem length_fraction_le (s : List Char) : (fraction s).2.length ≤ s.length := by
  have := length_dropWhile_le isDigit
  unfold fraction
  repeat' split
  all_goals grind

theorem length_decimalNumber_lt {c : Char} {rest r : List Char} {t : Token}
    (hc : isDigit c ∨ (c = '.' ∧ rest.head?.any isDigit))
    (h : decimalNumber (c :: rest) = .ok (t, r)) :
    r.length ≤ rest.length := by
  have hf : (fraction ((c :: rest).dropWhile isDigit)).2.length ≤ rest.length := by
    rcases hc with hc | ⟨rfl, hd⟩
    · rw [List.dropWhile_cons_of_pos hc]
      exact Nat.le_trans (length_fraction_le _) (length_dropWhile_le _ _)
    · rw [List.dropWhile_cons_of_neg (by decide)]
      cases rest with
      | nil => simp at hd
      | cons d tail =>
        have hd : isDigit d = true := by simpa using hd
        simp only [fraction, hd, if_true]
        exact length_dropWhile_le _ _
  have he := length_scanExponent_le (fraction ((c :: rest).dropWhile isDigit)).2
  dsimp only [decimalNumber] at h
  split at h <;> cases h
  exact Nat.le_trans he hf

theorem length_number_lt {c : Char} {rest r : List Char} {t : Token}
    (hc : isDigit c ∨ (c = '.' ∧ rest.head?.any isDigit)) (h : number (c :: rest) = .ok (t, r)) :
    r.length ≤ rest.length := by
  unfold number at h
  split at h
  · have := length_hexNumber_le h
    simp_all only [List.cons.injEq, List.length_cons]
    grind
  · have := length_hexNumber_le h
    grind
  · exact length_decimalNumber_lt hc h

theorem length_string_lt {quote : Char} {done s r : List Char} {t : Token}
    (h : string quote done s = .ok (t, r)) : r.length < s.length := by
  fun_induction string quote done s with
  | case1 => cases h
  | case2 => cases h; simp
  | case3 done rest e tail he hq ih =>
    have := length_escape_lt he
    have := ih h
    simp only [List.length_cons]
    omega
  | case4 => cases h
  | case5 done c rest hq hs ih => exact Nat.lt_succ_of_lt (ih h)

theorem length_template_lt {text : List Char} {chunks : List Chunk} {s r : List Char} {t : Token}
    (h : template text chunks s = .ok (t, r)) : r.length < s.length := by
  fun_induction template text chunks s with
  | case1 => cases h
  | case2 => cases h; simp
  | case3 text chunks rest e tail he hq ih =>
    have := length_escape_lt he
    have := ih h
    simp only [List.length_cons]
    omega
  | case4 => cases h
  | case5 text chunks c rest hq hs hd source tail ht ih =>
    have := length_hole?_lt ht
    have := ih h
    simp only [List.length_drop, List.length_cons] at *
    omega
  | case6 => cases h
  | case7 text chunks c rest hq hs hd ih => exact Nat.lt_succ_of_lt (ih h)

theorem length_token_lt {c : Char} {rest r : List Char} {t : Token}
    (h : token c rest = .ok (t, r)) : r.length < (c :: rest).length := by
  rw [List.length_cons]
  cases tokenStart c rest with
  | number start read => exact Nat.lt_succ_of_le (length_number_lt start (read ▸ h))
  | string start read => exact Nat.lt_succ_of_lt (length_string_lt (read ▸ h))
  | template start read => exact Nat.lt_succ_of_lt (length_template_lt (read ▸ h))
  | name start read =>
    cases read.symm.trans h
    exact Nat.lt_succ_of_le (length_dropWhile_le _ _)
  | mark start none_other read =>
    cases read.symm.trans h
    rw [List.length_drop]
    omega
  | none read => cases read.symm.trans h

def byteSize (s : List Char) : Nat :=
  s.foldl (fun n c => n + c.utf8Size) 0

/-- The byte of a text of `size` bytes at which its end `rest` starts. -/
def offset (size : Nat) (rest : List Char) : Nat :=
  size - byteSize rest

/-- The tokens of `s`, the end of a text of `size` bytes, behind those in `done`, last first. -/
def tokensFrom (size : Nat) (done : List Spanned) (s : List Char) :
    Except ParseFault (List Spanned) :=
  match _hs : s.dropWhile isBlank with
  | [] => .ok (⟨.stop, size⟩ :: done).reverse
  | c :: rest =>
    match _ht : token c rest with
    | .ok (t, after) => tokensFrom size (⟨t, offset size (c :: rest)⟩ :: done) after
    | .error halt => .error (.malformed halt.cause (offset size halt.rest))
termination_by s.length
decreasing_by
  have := length_token_lt _ht
  rw [← _hs] at this
  exact Nat.lt_of_lt_of_le this (length_dropWhile_le _ _)

end Lexer

/-- The tokens of a text; the last one is `stop`, at its end. -/
def tokenize (source : String) : Except ParseFault (List Spanned) :=
  Lexer.tokensFrom source.utf8ByteSize [] source.toList

end Workflow
