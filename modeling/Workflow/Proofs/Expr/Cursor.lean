import Mathlib.Algebra.GroupWithZero.Nat
import Mathlib.Algebra.Order.BigOperators.Group.List
import Workflow.Proofs.Expr.Slices

/-! The tokens of a text as a reader meets them: they end with the end of the text, and the holes of
their templates are smaller texts. What is left to read is measured by the levels of nesting that it
can open. -/
namespace Workflow

/-- Tokens up to the end of a text, which stands nowhere else among them. -/
inductive Ended : List Spanned → Prop
  | stop (o : Nat) : Ended [⟨.stop, o⟩]
  | cons {t : Spanned} {ts : List Spanned} (token : t.token ≠ .stop) (behind : Ended ts) :
    Ended (t :: ts)

namespace Ended

variable {t : Spanned} {ts : List Spanned}

theorem ne_nil (h : Ended ts) : ts ≠ [] := by
  cases h with
  | stop => exact List.cons_ne_nil _ _
  | cons => exact List.cons_ne_nil _ _

/-- Only behind the end there are no tokens. -/
theorem tail (h : Ended (t :: ts)) (ht : t.token ≠ .stop) : Ended ts := by
  cases h with
  | stop => exact absurd rfl ht
  | cons _ behind => exact behind

end Ended

/-- The text is the source of a hole in a template among the tokens. -/
def IsHole (ts : List Spanned) (hole : String) : Prop :=
  ∃ chunks o, ⟨.template chunks, o⟩ ∈ ts ∧ .source hole ∈ chunks

/-- How many levels of nesting the holes in a template can open, and the token itself. -/
def Chunk.levels : Chunk → Nat
  | .text _ => 0
  | .source s => s.length + 1

def Token.levels : Token → Nat
  | .template chunks => (chunks.map Chunk.levels).sum + 1
  | _ => 1

/-- How many levels of nesting tokens can open. -/
def tokenLevels (ts : List Spanned) : Nat :=
  (ts.map fun t => t.token.levels).sum

theorem tokenLevels_cons (t : Spanned) (ts : List Spanned) :
    tokenLevels (t :: ts) = t.token.levels + tokenLevels ts :=
  List.sum_cons

theorem Token.one_le_levels (t : Token) : 1 ≤ t.levels := by
  cases t with
  | template chunks => exact Nat.le_add_left 1 _
  | _ => exact Nat.le_refl 1

/-- What stands behind other tokens can open fewer levels. -/
theorem tokenLevels_lt {ts ts' : List Spanned} (h : ts' <:+ ts) (hlt : ts'.length < ts.length) :
    tokenLevels ts' < tokenLevels ts := by
  obtain ⟨front, rfl⟩ := h
  cases front with
  | nil => exact absurd hlt (Nat.lt_irrefl _)
  | cons t front =>
    have hone := t.token.one_le_levels
    have hle : tokenLevels ts' ≤ tokenLevels (front ++ ts') := by
      rw [tokenLevels, tokenLevels, List.map_append, List.sum_append]
      exact Nat.le_add_left _ _
    rw [List.cons_append, tokenLevels_cons]
    omega

theorem Ended.one_le_tokenLevels {ts : List Spanned} (h : Ended ts) : 1 ≤ tokenLevels ts := by
  cases h with
  | stop => exact Nat.le_refl 1
  | @cons t ts =>
    rw [tokenLevels_cons]
    exact Nat.le_trans t.token.one_le_levels (Nat.le_add_right _ _)

/-- A hole can open fewer levels than the tokens it stands among. -/
theorem IsHole.length_lt {ts : List Spanned} {hole : String} (h : IsHole ts hole) (he : Ended ts) :
    hole.length + 2 < tokenLevels ts := by
  obtain ⟨chunks, o, hmem, hsource⟩ := h
  induction he with
  | stop =>
    have heq := List.mem_singleton.1 hmem
    cases heq
  | @cons t ts _ behind ih =>
    rw [tokenLevels_cons]
    rcases List.mem_cons.1 hmem with rfl | hmem
    · have hchunk : hole.length + 1 ≤ (chunks.map Chunk.levels).sum :=
        List.le_sum_of_mem (List.mem_map_of_mem hsource)
      have hone := behind.one_le_tokenLevels
      dsimp only [Token.levels]
      omega
    · exact Nat.lt_add_left _ (ih hmem)

namespace Lexer

theorem levels_addText (text : List Char) (chunks : List Chunk) :
    ((addText text chunks).map Chunk.levels).sum = (chunks.map Chunk.levels).sum := by
  unfold addText
  split
  · rfl
  · rw [List.map_cons, List.sum_cons, Chunk.levels, Nat.zero_add]

/-- The holes of a template and their braces are part of its text. -/
theorem levels_template {text s after : List Char} {chunks : List Chunk} {t : Token}
    (h : template text chunks s = .ok (t, after)) :
    t.levels + after.length ≤ (chunks.map Chunk.levels).sum + s.length := by
  fun_induction template text chunks s with
  | case1 => contradiction
  | case2 text chunks rest =>
    obtain ⟨rfl, rfl⟩ := Prod.mk.inj (Except.ok.inj h)
    rw [Token.levels, List.map_reverse, List.sum_reverse, levels_addText, List.length_cons]
    omega
  | case3 text chunks rest e tail he hq ih =>
    have hescape := length_escape_lt he
    have hread := ih h
    rw [List.length_cons]
    omega
  | case4 => contradiction
  | case5 text chunks c rest hq hs hd source tail ht ih =>
    obtain ⟨inner, -, hsource, hbody⟩ := hole?_eq_some_iff.1 ht
    obtain rfl : source = inner := hsource
    have hlength := congrArg List.length hbody
    have hread := ih h
    rw [List.length_drop, List.length_append, List.length_cons] at hlength
    rw [List.map_cons, List.sum_cons, Chunk.levels, String.length_ofList, levels_addText] at hread
    rw [List.length_cons]
    omega
  | case6 => contradiction
  | case7 text chunks c rest hq hs hd ih =>
    have hread := ih h
    rw [List.length_cons]
    omega

/-- A template stands between backticks. -/
theorem template_of_token {c : Char} {s after : List Char} {chunks : List Chunk}
    (h : token c s = .ok (.template chunks, after)) :
    template [] [] s = .ok (.template chunks, after) := by
  cases tokenStart c s with
  | number _ read =>
    obtain ⟨x, hx⟩ := exists_of_number (read.symm.trans h)
    contradiction
  | string _ read =>
    obtain ⟨x, hx⟩ := exists_of_string (read.symm.trans h)
    contradiction
  | template _ read => exact read.symm.trans h
  | name _ read => cases read.symm.trans h
  | mark _ _ read => cases read.symm.trans h
  | none read => cases read.symm.trans h

theorem levels_token {c : Char} {s after : List Char} {t : Token} (h : token c s = .ok (t, after)) :
    t.levels + after.length ≤ s.length + 1 := by
  have hlength := length_token_lt h
  rw [List.length_cons] at hlength
  cases t with
  | template chunks =>
    have hread := levels_template (template_of_token h)
    rw [List.map_nil, List.sum_nil] at hread
    omega
  | _ =>
    show 1 + after.length ≤ _
    omega

/-- The source of a hole is part of the text. -/
theorem infix_of_template {text s after : List Char} {chunks all : List Chunk} {hole : String}
    (h : template text chunks s = .ok (.template all, after)) (hmem : .source hole ∈ all) :
    .source hole ∈ chunks ∨ hole.toList <:+: s := by
  have htext (text : List Char) (chunks : List Chunk) (hm : .source hole ∈ addText text chunks) :
      .source hole ∈ chunks := by
    unfold addText at hm
    split at hm
    · exact hm
    · rcases List.mem_cons.1 hm with he | hm
      · contradiction
      · exact hm
  fun_induction template text chunks s with
  | case1 => contradiction
  | case2 text chunks rest =>
    obtain ⟨ht, -⟩ := Prod.mk.inj (Except.ok.inj h)
    obtain rfl := Token.template.inj ht
    exact Or.inl (htext _ _ (List.mem_reverse.1 hmem))
  | case3 text chunks rest e tail he hq ih =>
    exact (ih h).imp_right fun hi =>
      (hi.trans (suffix_of_escape he).isInfix).trans (List.suffix_cons _ _).isInfix
  | case4 => contradiction
  | case5 text chunks c rest hq hs hd source tail ht ih =>
    obtain ⟨inner, -, hsource, hbody⟩ := hole?_eq_some_iff.1 ht
    obtain rfl : source = inner := hsource
    have hrest : rest.drop 1 <:+: c :: rest :=
      (List.drop_suffix 1 rest).isInfix.trans (List.suffix_cons c rest).isInfix
    rw [hbody] at hrest
    rcases ih h with hm | hi
    · rcases List.mem_cons.1 hm with he | hm
      · obtain rfl := Chunk.source.inj he
        rw [String.toList_ofList]
        exact Or.inr ((List.prefix_append _ _).isInfix.trans hrest)
      · exact Or.inl (htext _ _ hm)
    · have htail : tail <:+: source ++ '\x7d' :: tail :=
        ((List.suffix_cons _ _).trans (List.suffix_append _ _)).isInfix
      exact Or.inr ((hi.trans htail).trans hrest)
  | case6 => contradiction
  | case7 text chunks c rest hq hs hd ih =>
    exact (ih h).imp_right fun hi => hi.trans (List.suffix_cons c rest).isInfix

namespace Cut

variable {before s : List Char} {ts : List Spanned} (h : Cut before s ts)
include h

theorem ended : Ended ts := by
  induction h with
  | stop => exact .stop _
  | token _ _ read _ ih =>
    refine .cons ?_ ih
    rintro rfl
    obtain ⟨m, hm, -⟩ := token_eq_mark read (Or.inl rfl)
    contradiction

/-- The tokens open no more levels than the text has characters and its end. -/
theorem tokenLevels_le : tokenLevels ts ≤ s.length + 1 := by
  induction h with
  | stop => exact Nat.le_add_left 1 _
  | token _ _ read _ ih =>
    have hread := levels_token read
    rw [tokenLevels_cons]
    simp only [List.length_append, List.length_cons] at hread ⊢
    omega

theorem infix_of_isHole {hole : String} (hh : IsHole ts hole) : hole.toList <:+: s := by
  obtain ⟨chunks, o, hmem, hsource⟩ := hh
  induction h with
  | stop =>
    have heq := List.mem_singleton.1 hmem
    cases heq
  | @token _ gap taken after c t ts _ _ read _ ih =>
    have htail : taken ++ after <:+: gap ++ c :: (taken ++ after) :=
      ((List.suffix_cons _ _).trans (List.suffix_append _ _)).isInfix
    rcases List.mem_cons.1 hmem with he | hmem
    · obtain ⟨rfl, -⟩ := Spanned.mk.inj he
      rcases infix_of_template (template_of_token read) hsource with hn | hi
      · exact absurd hn List.not_mem_nil
      · exact hi.trans htail
    · exact ((ih hmem).trans (List.suffix_append _ _).isInfix).trans htail

end Cut

end Lexer

end Workflow
