import Workflow.Json.Numeral

/-! Reading JSON text. -/
namespace Workflow.Json

open Text Number

/-- Nesting beyond this many levels is not read. -/
def maxNesting : Nat :=
  127

/-- White space between the tokens of JSON. -/
def isGap (c : Char) : Bool :=
  c = ' ' || c = '\n' || c = '\t' || c = '\r'

def skip (s : List Char) : List Char :=
  s.dropWhile isGap

theorem length_skip_le (s : List Char) : (skip s).length ≤ s.length :=
  (List.dropWhile_sublist _).length_le

/-- The value of four hexadecimal digits. -/
def unit? (a b c d : Char) : Option Nat :=
  digits? 16 [a, b, c, d]

/-- The text up to the closing quote, behind the characters in `done`, last first, and what follows
the quote. Escaped surrogates have to come in pairs. -/
def stringBody (done : List Char) (s : List Char) : Option (List Char × List Char) :=
  match s with
  | [] => none
  | '\x22' :: rest => some (done.reverse, rest)
  | '\\' :: 'u' :: a :: b :: c :: d :: rest =>
    match unit? a b c d with
    | none => none
    | some n =>
      -- the high half of a pair: the low half has to follow
      if 0xd800 ≤ n ∧ n < 0xdc00 then
        match rest with
        | '\\' :: 'u' :: e :: f :: g :: h :: rest =>
          match unit? e f g h with
          | none => none
          | some m =>
            if 0xdc00 ≤ m ∧ m < 0xe000 then
              stringBody (Char.ofNat (0x10000 + (n - 0xd800) * 0x400 + (m - 0xdc00)) :: done) rest
            else none
        | _ => none
      -- a low half on its own
      else if 0xdc00 ≤ n ∧ n < 0xe000 then none
      else stringBody (Char.ofNat n :: done) rest
  | '\\' :: c :: rest =>
    match c with
    | '\x22' => stringBody ('\x22' :: done) rest
    | '\\' => stringBody ('\\' :: done) rest
    | '/' => stringBody ('/' :: done) rest
    | 'b' => stringBody ('\x08' :: done) rest
    | 'f' => stringBody ('\x0c' :: done) rest
    | 'n' => stringBody ('\n' :: done) rest
    | 'r' => stringBody ('\r' :: done) rest
    | 't' => stringBody ('\t' :: done) rest
    | _ => none
  | c :: rest => if c.toNat < 0x20 ∨ c = '\\' then none else stringBody (c :: done) rest
termination_by structural s

theorem length_stringBody_lt {done s t r : List Char} (h : stringBody done s = some (t, r)) :
    r.length < s.length := by
  fun_induction stringBody done s
  all_goals first
    | contradiction
    | rename_i ih
      exact Nat.lt_trans (ih h) (by simp only [List.length_cons]; omega)
    | simp only [Option.some.injEq, Prod.mk.injEq] at h
      simp [h.2]

/-- The value of the word at the start of `s`. -/
def keyword? (s : List Char) : Option (Json × List Char) :=
  match s with
  | 'n' :: 'u' :: 'l' :: 'l' :: rest => some (.null, rest)
  | 't' :: 'r' :: 'u' :: 'e' :: rest => some (.bool true, rest)
  | 'f' :: 'a' :: 'l' :: 's' :: 'e' :: rest => some (.bool false, rest)
  | _ => none

theorem length_keyword?_lt {s r : List Char} {v : Json} (h : keyword? s = some (v, r)) :
    r.length < s.length := by
  unfold keyword? at h
  split at h
  · cases h; simp only [List.length_cons]; omega
  · cases h; simp only [List.length_cons]; omega
  · cases h; simp only [List.length_cons]; omega
  · contradiction

theorem length_wholeDigits?_lt {s d r : List Char} (h : wholeDigits? s = some (d, r)) :
    r.length < s.length := by
  have hs := congrArg List.length (List.takeWhile_append_dropWhile (p := isDigit) (l := s))
  rw [List.length_append] at hs
  unfold wholeDigits? at h
  split at h
  · simp at h
  · simp at h
  · rename_i hne _
    have := List.length_pos_iff.2 hne
    simp only [Option.some.injEq, Prod.mk.injEq] at h
    rw [← h.2]
    omega

theorem length_fractionDigits?_le {s d r : List Char} (h : fractionDigits? s = some (d, r)) :
    r.length ≤ s.length := by
  unfold fractionDigits? at h
  split at h
  · rename_i body
    have := length_dropWhile_le isDigit body
    split at h
    all_goals grind
  · simp_all

theorem length_exponentPart?_le {s r : List Char} {e : Option Int}
    (h : exponentPart? s = some (e, r)) : r.length ≤ s.length := by
  have := length_scanExponent_le s
  unfold exponentPart? at h
  split at h
  all_goals grind

theorem length_readUnsigned?_lt {s r : List Char} {negative : Bool} {n : Numeral}
    (h : readUnsigned? negative s = some (n, r)) : r.length < s.length := by
  unfold readUnsigned? at h
  obtain ⟨_, hw, h⟩ := Option.bind_eq_some_iff.1 h
  obtain ⟨_, hf, h⟩ := Option.bind_eq_some_iff.1 h
  obtain ⟨_, he, h⟩ := Option.bind_eq_some_iff.1 h
  obtain ⟨_, _, h⟩ := Option.bind_eq_some_iff.1 h
  cases h
  exact Nat.lt_of_le_of_lt
    (Nat.le_trans (length_exponentPart?_le he) (length_fractionDigits?_le hf))
    (length_wholeDigits?_lt hw)

theorem length_readNumeral?_lt {s r : List Char} {n : Numeral} (h : readNumeral? s = some (n, r)) :
    r.length < s.length := by
  unfold readNumeral? at h
  split at h
  · exact Nat.lt_succ_of_lt (length_readUnsigned?_lt h)
  · exact length_readUnsigned?_lt h

theorem length_lt_of_skip {s r : List Char} {c : Char} (h : skip s = c :: r) :
    r.length < s.length := by
  have := length_skip_le s
  rw [h, List.length_cons] at this
  omega

/-- A value and what follows it in `s`. -/
abbrev Read (α : Type) (s : List Char) : Type :=
  Option (α × { rest : List Char // rest.length < s.length })

mutual

/-- The value at the start of `s`, nested at most `room` levels. -/
def value? (room : Nat) (s : List Char) : Read Json s :=
  match h : skip s with
  | [] => none
  | c :: rest =>
    have hs : rest.length < s.length := length_lt_of_skip h
    if c = '[' then
      match room with
      | 0 => none
      | room + 1 =>
        match hr : skip rest with
        | ']' :: r => some (.array [], ⟨r, Nat.lt_trans (length_lt_of_skip hr) hs⟩)
        | _ => (items? room rest).map fun (items, r) => (.array items, ⟨r.1, Nat.lt_trans r.2 hs⟩)
    else if c = '\x7b' then
      match room with
      | 0 => none
      | room + 1 =>
        match hr : skip rest with
        | '\x7d' :: r => some (.object [], ⟨r, Nat.lt_trans (length_lt_of_skip hr) hs⟩)
        | _ => (entries? room rest).map fun (es, r) => (.ofEntries es, ⟨r.1, Nat.lt_trans r.2 hs⟩)
    else if c = '\x22' then
      match hr : stringBody [] rest with
      | some (t, r) =>
        some (.string (String.ofList t), ⟨r, Nat.lt_trans (length_stringBody_lt hr) hs⟩)
      | none => none
    else
      have hle : (c :: rest).length ≤ s.length := h ▸ length_skip_le s
      match hw : keyword? (c :: rest) with
      | some (v, r) => some (v, ⟨r, Nat.lt_of_lt_of_le (length_keyword?_lt hw) hle⟩)
      | none =>
        match hn : readNumeral? (c :: rest) with
        | some (n, r) => some (.number n, ⟨r, Nat.lt_of_lt_of_le (length_readNumeral?_lt hn) hle⟩)
        | none => none
termination_by 2 * s.length

/-- The items of an array that has at least one, up to the closing bracket. -/
def items? (room : Nat) (s : List Char) : Read (List Json) s :=
  match value? room s with
  | none => none
  | some (v, ⟨rest, hs⟩) =>
    match hr : skip rest with
    | ']' :: r => some ([v], ⟨r, Nat.lt_trans (length_lt_of_skip hr) hs⟩)
    | ',' :: r =>
      have ht : r.length < s.length := Nat.lt_trans (length_lt_of_skip hr) hs
      (items? room r).map fun (vs, r) => (v :: vs, ⟨r.1, Nat.lt_trans r.2 ht⟩)
    | _ => none
termination_by 2 * s.length + 1

/-- The entries of an object that has at least one, up to the closing brace. -/
def entries? (room : Nat) (s : List Char) : Read (List (String × Json)) s :=
  match hs : skip s with
  | '\x22' :: rest =>
    match hk : stringBody [] rest with
    | none => none
    | some (key, afterKey) =>
      match hc : skip afterKey with
      | ':' :: body =>
        have hb : body.length < s.length :=
          Nat.lt_trans (length_lt_of_skip hc)
            (Nat.lt_trans (length_stringBody_lt hk) (length_lt_of_skip hs))
        match value? room body with
        | none => none
        | some (v, ⟨rest, hv⟩) =>
          match hr : skip rest with
          | '\x7d' :: r =>
            some ([(String.ofList key, v)],
              ⟨r, Nat.lt_trans (length_lt_of_skip hr) (Nat.lt_trans hv hb)⟩)
          | ',' :: r =>
            have ht : r.length < s.length :=
              Nat.lt_trans (length_lt_of_skip hr) (Nat.lt_trans hv hb)
            (entries? room r).map fun (es, r) =>
              ((String.ofList key, v) :: es, ⟨r.1, Nat.lt_trans r.2 ht⟩)
          | _ => none
      | _ => none
  | _ => none
termination_by 2 * s.length + 1

end

/-- The value of a whole text. -/
def parse? (s : String) : Option Json :=
  match value? maxNesting s.toList with
  | some (v, ⟨rest, _⟩) => if (skip rest).isEmpty then some v else none
  | none => none

end Workflow.Json
