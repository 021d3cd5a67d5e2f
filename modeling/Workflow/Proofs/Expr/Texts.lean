import Mathlib.Algebra.GroupWithZero.Nat
import Mathlib.Data.String.Basic
import Mathlib.Tactic.Common
import Workflow.Expr.Parser

/-! The texts that stand in an expression. All of them together are no longer than the text that the
expression is read from. -/
namespace Workflow

/-- A text that stands in an expression: a literal, or the key of an entry. -/
inductive Inscription where
  | literal (s : String)
  | key (s : String)

namespace Inscription

def text : Inscription → String
  | .literal s => s
  | .key s => s

/-- The bytes of a literal; what a key counts is given. -/
def bytes (keyBytes : String → Nat) : Inscription → Nat
  | .literal s => s.utf8ByteSize
  | .key s => keyBytes s

/-- The bytes of all texts. -/
def total (keyBytes : String → Nat) (texts : List Inscription) : Nat :=
  (texts.map (bytes keyBytes)).sum

variable {keyBytes : String → Nat}

@[simp]
theorem total_nil : total keyBytes [] = 0 :=
  rfl

@[simp]
theorem total_cons (x : Inscription) (texts : List Inscription) :
    total keyBytes (x :: texts) = x.bytes keyBytes + total keyBytes texts := by
  rw [total, List.map_cons, List.sum_cons, total]

@[simp]
theorem total_append (texts more : List Inscription) :
    total keyBytes (texts ++ more) = total keyBytes texts + total keyBytes more := by
  rw [total, List.map_append, List.sum_append, total, total]

theorem bytes_le_total {x : Inscription} {texts : List Inscription} (h : x ∈ texts) :
    x.bytes keyBytes ≤ total keyBytes texts := by
  induction texts with
  | nil => cases h
  | cons y texts ih =>
    rw [total_cons]
    rcases List.mem_cons.1 h with rfl | h
    · exact Nat.le_add_right _ _
    · exact Nat.le_trans (ih h) (Nat.le_add_left _ _)

end Inscription

namespace Expr

mutual

/-- The texts that stand in an expression, wherever they do. The text of a template literal is none:
it is part of a text that is put together. -/
def texts : Expr → List Inscription
  | .literal (.string s) => [.literal s]
  | .literal _ => []
  | .template fragments => fragmentTexts fragments
  | .name _ => []
  | .array items => itemTexts items
  | .object entries => entryTexts entries
  | .member e _ _ => texts e
  | .index e key _ => texts e ++ texts key
  | .call e args _ => texts e ++ itemTexts args
  | .construct e args => texts e ++ itemTexts args
  | .unary _ e => texts e
  | .binary _ left right => texts left ++ texts right
  | .logical _ left right => texts left ++ texts right
  | .conditional test consequent alternate => texts test ++ (texts consequent ++ texts alternate)
  | .arrow _ body => texts body
termination_by structural e => e

def itemTexts : List Expr → List Inscription
  | [] => []
  | e :: rest => texts e ++ itemTexts rest
termination_by structural items => items

def entryTexts : List (String × Expr) → List Inscription
  | [] => []
  | (key, e) :: rest => .key key :: (texts e ++ entryTexts rest)
termination_by structural entries => entries

def fragmentTexts : List Fragment → List Inscription
  | [] => []
  | .text _ :: rest => fragmentTexts rest
  | .hole e :: rest => texts e ++ fragmentTexts rest
termination_by structural fragments => fragments

end

end Expr

def Chunk.sourceBytes : Chunk → Nat
  | .text _ => 0
  | .source s => s.utf8ByteSize

def Token.bytes : Token → Nat
  | .string s => s.utf8ByteSize
  | .name s => s.utf8ByteSize
  | .template chunks => (chunks.map Chunk.sourceBytes).sum
  | .number _ => 0
  | .mark _ => 0
  | .stop => 0

/-- The bytes of the names, texts and holes among tokens. -/
def tokenBytes (ts : List Spanned) : Nat :=
  (ts.map fun t => t.token.bytes).sum

@[simp]
theorem tokenBytes_nil : tokenBytes [] = 0 :=
  rfl

@[simp]
theorem tokenBytes_cons (t : Spanned) (ts : List Spanned) :
    tokenBytes (t :: ts) = t.token.bytes + tokenBytes ts := by
  rw [tokenBytes, List.map_cons, List.sum_cons, tokenBytes]

namespace Lexer

open Text String

theorem length_le_utf8Len (s : List Char) : s.length ≤ utf8Len s := by
  induction s with
  | nil => exact Nat.le_refl _
  | cons c s ih =>
    have hc := c.utf8Size_pos
    rw [List.length_cons, utf8Len_cons]
    omega

theorem utf8Len_dropWhile_le (p : Char → Bool) (s : List Char) :
    utf8Len (s.dropWhile p) ≤ utf8Len s :=
  utf8Len_le_of_sublist (List.dropWhile_sublist p)

theorem utf8Len_drop_le (n : Nat) (s : List Char) : utf8Len (s.drop n) ≤ utf8Len s :=
  utf8Len_le_of_sublist (List.drop_sublist n s)

theorem utf8Len_takeWhile_add (p : Char → Bool) (s : List Char) :
    utf8Len (s.takeWhile p) + utf8Len (s.dropWhile p) = utf8Len s := by
  rw [← utf8Len_append, List.takeWhile_append_dropWhile]

/-- The code of a character has a digit. -/
theorem code_ne_nil {code rest r : List Char} {c : Char}
    (h : unicodeEscape code rest = .ok (c, r)) : code ≠ [] := by
  rintro rfl
  cases h

/-- An escape with its backslash is no shorter than the character that it stands for. -/
theorem utf8Len_escape_le {s r : List Char} {c : Char} (h : escape s = .ok (c, r)) :
    c.utf8Size + utf8Len r ≤ utf8Len s + 1 := by
  have hc := c.utf8Size_le_four
  unfold escape at h
  split at h
  -- the code in braces has a digit, so that the escape has at least four bytes
  case h_9 rest =>
    have hcode := length_le_utf8Len (rest.takeWhile (· != '\x7d'))
    have hpos := List.length_pos_iff.2 (code_ne_nil h)
    have hsum := utf8Len_takeWhile_add (· != '\x7d') rest
    have hdrop := utf8Len_drop_le 1 (rest.dropWhile (· != '\x7d'))
    have hu : 'u'.utf8Size = 1 := rfl
    have hb : '\x7b'.utf8Size = 1 := rfl
    rw [length_unicodeEscape h, utf8Len_cons, utf8Len_cons]
    omega
  case h_10 v w x y rest hbrace =>
    have hlen : 5 ≤ utf8Len ['u', v, w, x, y] := length_le_utf8Len ['u', v, w, x, y]
    have hsum : utf8Len ('u' :: v :: w :: x :: y :: rest) =
        utf8Len ['u', v, w, x, y] + utf8Len rest := utf8Len_append ['u', v, w, x, y] rest
    rw [length_unicodeEscape h, hsum]
    omega
  case h_1 => cases h
  case h_11 => cases h
  case h_12 =>
    cases h
    rw [utf8Len_cons]
    omega
  all_goals
    cases h
    show 1 + utf8Len r ≤ utf8Len r + 1 + 1
    omega

theorem utf8Len_string_le {quote : Char} {done s r : List Char} {t : Token}
    (h : string quote done s = .ok (t, r)) :
    t.bytes + utf8Len r ≤ utf8Len done + utf8Len s := by
  fun_induction string quote done s with
  | case1 => cases h
  | case2 done rest =>
    cases h
    rw [Token.bytes, utf8ByteSize_ofList, utf8Len_reverse, utf8Len_cons]
    omega
  | case3 done rest e tail he hq ih =>
    have hescape := utf8Len_escape_le he
    have hread := ih h
    have hmark : '\\'.utf8Size = 1 := rfl
    rw [utf8Len_cons] at hread ⊢
    omega
  | case4 => cases h
  | case5 done c rest hq hs ih =>
    have hread := ih h
    rw [utf8Len_cons] at hread ⊢
    omega

theorem utf8Len_hole?_le {depth : Nat} {done s t r : List Char}
    (h : hole? depth done s = some (t, r)) : utf8Len t + utf8Len r ≤ utf8Len done + utf8Len s := by
  induction s generalizing depth done with
  | nil => cases h
  | cons c rest ih =>
    have hstep {depth : Nat} (h : hole? depth (c :: done) rest = some (t, r)) :
        utf8Len t + utf8Len r ≤ utf8Len done + utf8Len (c :: rest) := by
      have hread := ih h
      rw [utf8Len_cons] at hread ⊢
      omega
    unfold hole? at h
    split at h
    · exact hstep h
    · split at h
      · split at h
        · cases h
          rw [utf8Len_reverse, utf8Len_cons]
          omega
        · exact hstep h
      · exact hstep h

theorem sourceBytes_addText (text : List Char) (chunks : List Chunk) :
    ((addText text chunks).map Chunk.sourceBytes).sum = (chunks.map Chunk.sourceBytes).sum := by
  unfold addText
  split
  · rfl
  · rw [List.map_cons, List.sum_cons, Chunk.sourceBytes, Nat.zero_add]

theorem utf8Len_template_le {text : List Char} {chunks : List Chunk} {s r : List Char} {t : Token}
    (h : template text chunks s = .ok (t, r)) :
    t.bytes + utf8Len r ≤ (chunks.map Chunk.sourceBytes).sum + utf8Len s := by
  fun_induction template text chunks s with
  | case1 => cases h
  | case2 text chunks rest =>
    cases h
    rw [Token.bytes, List.map_reverse, List.sum_reverse, sourceBytes_addText, utf8Len_cons]
    omega
  | case3 text chunks rest e tail he hq ih =>
    have hescape := utf8Len_escape_le he
    have hread := ih h
    have hmark : '\\'.utf8Size = 1 := rfl
    rw [utf8Len_cons]
    omega
  | case4 => cases h
  -- only the source of a hole counts; the text around it is part of what is put together
  | case5 text chunks c rest hq hs hd source tail ht ih =>
    have hhole := utf8Len_hole?_le ht
    have hdrop := utf8Len_drop_le 1 rest
    have hread := ih h
    rw [List.map_cons, List.sum_cons, Chunk.sourceBytes, utf8ByteSize_ofList,
      sourceBytes_addText] at hread
    rw [utf8Len_nil] at hhole
    rw [utf8Len_cons]
    omega
  | case6 => cases h
  | case7 text chunks c rest hq hs hd ih =>
    have hread := ih h
    rw [utf8Len_cons]
    omega

theorem utf8Len_fraction_le (s : List Char) : utf8Len (fraction s).2 ≤ utf8Len s := by
  unfold fraction
  split
  · rename_i rest
    split
    · exact Nat.zero_le _
    · rename_i d tail
      have hdrop := utf8Len_dropWhile_le Number.isDigit (d :: tail)
      have hrest : utf8Len (d :: tail) ≤ utf8Len ('.' :: d :: tail) := Nat.le_add_right _ _
      split
      · exact Nat.le_trans hdrop hrest
      · split
        · exact Nat.le_refl _
        · exact hrest
  · exact Nat.le_refl _

theorem utf8Len_scanExponent_le (s : List Char) :
    utf8Len (Number.scanExponent s).2 ≤ utf8Len s := by
  unfold Number.scanExponent
  split
  · rename_i c rest
    split
    · dsimp only
      split
      · -- the digits may stand behind a sign
        refine Nat.le_trans (utf8Len_dropWhile_le _ _) ?_
        split
        · simp only [utf8Len_cons]
          omega
        · simp only [utf8Len_cons]
          omega
        · exact Nat.le_add_right _ _
      · exact Nat.le_refl _
    · exact Nat.le_refl _
  · exact Nat.le_refl _

theorem utf8Len_number_le {s r : List Char} {t : Token} (h : number s = .ok (t, r)) :
    t.bytes + utf8Len r ≤ utf8Len s := by
  have hhex {hex : List Char} (h : hexNumber hex = .ok (t, r)) :
      t.bytes + utf8Len r ≤ utf8Len hex := by
    dsimp only [hexNumber] at h
    split at h
    · cases h
      rw [Token.bytes, Nat.zero_add]
      exact utf8Len_dropWhile_le _ _
    · cases h
  unfold number at h
  split at h
  · exact Nat.le_trans (hhex h) (Nat.le_trans (Nat.le_add_right _ _) (Nat.le_add_right _ _))
  · exact Nat.le_trans (hhex h) (Nat.le_trans (Nat.le_add_right _ _) (Nat.le_add_right _ _))
  · dsimp only [decimalNumber] at h
    split at h
    · cases h
      rw [Token.bytes, Nat.zero_add]
      calc utf8Len (Number.scanExponent (fraction (s.dropWhile Number.isDigit)).2).2
        _ ≤ utf8Len (fraction (s.dropWhile Number.isDigit)).2 := utf8Len_scanExponent_le _
        _ ≤ utf8Len (s.dropWhile Number.isDigit) := utf8Len_fraction_le _
        _ ≤ utf8Len s := utf8Len_dropWhile_le _ _
    · cases h

theorem utf8Len_token_le {c : Char} {rest r : List Char} {t : Token}
    (h : token c rest = .ok (t, r)) : t.bytes + utf8Len r ≤ utf8Len (c :: rest) := by
  cases tokenStart c rest with
  | number _ read => exact utf8Len_number_le (read.symm.trans h)
  | string _ read =>
    have hread := utf8Len_string_le (read.symm.trans h)
    rw [utf8Len_nil] at hread
    rw [utf8Len_cons]
    omega
  | template _ read =>
    have hread := utf8Len_template_le (read.symm.trans h)
    rw [List.map_nil, List.sum_nil] at hread
    rw [utf8Len_cons]
    omega
  | name _ read =>
    cases read.symm.trans h
    have hsum := utf8Len_takeWhile_add isNamePart rest
    rw [Token.bytes, utf8ByteSize_ofList, utf8Len_cons, utf8Len_cons]
    omega
  | mark _ _ read =>
    cases read.symm.trans h
    rw [Token.bytes, Nat.zero_add, utf8Len_cons]
    exact Nat.le_trans (utf8Len_drop_le _ _) (Nat.le_add_right _ _)
  | none read => cases read.symm.trans h

theorem tokenBytes_tokensFrom {size : Nat} {done : List Spanned} {s : List Char}
    {ts : List Spanned} (h : tokensFrom size done s = .ok ts) :
    tokenBytes ts ≤ tokenBytes done + utf8Len s := by
  fun_induction tokensFrom size done s with
  | case1 done s hs =>
    cases h
    rw [tokenBytes, List.map_reverse, List.sum_reverse, ← tokenBytes, tokenBytes_cons, Token.bytes,
      Nat.zero_add]
    exact Nat.le_add_right _ _
  | case2 done s c rest hs t after ht ih =>
    have hread := ih h
    have htoken := utf8Len_token_le ht
    have hdrop := utf8Len_dropWhile_le isBlank s
    rw [hs] at hdrop
    rw [tokenBytes_cons] at hread
    dsimp only at hread
    omega
  | case3 => cases h

end Lexer

/-- The tokens have no more text than what they are cut from. -/
theorem tokenBytes_tokenize {source : String} {ts : List Spanned} (h : tokenize source = .ok ts) :
    tokenBytes ts ≤ source.utf8ByteSize := by
  have hread := Lexer.tokenBytes_tokensFrom h
  rwa [String.utf8Len_toList, tokenBytes_nil, Nat.zero_add] at hread

end Workflow
