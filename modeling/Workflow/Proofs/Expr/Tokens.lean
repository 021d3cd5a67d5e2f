import Workflow.Proofs.Reference.Plain

/-! How the pieces of a plain reference are cut into tokens. -/
namespace Workflow.Lexer

open Text

/-- A text is cut into these tokens, whatever was read before it. -/
def Reads (s : List Char) (ts : List Token) : Prop :=
  ∀ size done, ∃ spanned : List Spanned,
    tokensFrom size done s = .ok (done.reverse ++ spanned) ∧ spanned.map Spanned.token = ts

theorem reads_nil : Reads [] [.stop] := by
  intro size done
  refine ⟨[⟨.stop, size⟩], ?_, rfl⟩
  rw [tokensFrom]
  simp only [List.dropWhile_nil, List.reverse_cons]

theorem tokensFrom_of_token {size : Nat} {done : List Spanned} {c : Char} {rest after : List Char}
    {t : Token} (hb : isBlank c = false) (ht : token c rest = .ok (t, after)) :
    tokensFrom size done (c :: rest) =
      tokensFrom size (⟨t, offset size (c :: rest)⟩ :: done) after := by
  have hd : (c :: rest).dropWhile isBlank = c :: rest :=
    List.dropWhile_cons_of_neg (by simp [hb])
  rw [tokensFrom]
  split
  · rename_i he
    rw [hd] at he
    contradiction
  · rename_i c' rest' he
    obtain ⟨rfl, rfl⟩ := List.cons.inj (hd.symm.trans he)
    split
    · rename_i t' after' he
      obtain ⟨rfl, rfl⟩ := Prod.mk.inj (Except.ok.inj (ht.symm.trans he))
      rfl
    · rename_i he
      rw [ht] at he
      contradiction

theorem Reads.token {c : Char} {rest after : List Char} {t : Token} {ts : List Token}
    (h : Reads after ts) (hb : isBlank c = false) (ht : token c rest = .ok (t, after)) :
    Reads (c :: rest) (t :: ts) := by
  intro size done
  obtain ⟨spanned, hs, hts⟩ := h size (⟨t, offset size (c :: rest)⟩ :: done)
  refine ⟨⟨t, offset size (c :: rest)⟩ :: spanned, ?_, by rw [List.map_cons, hts]⟩
  rw [tokensFrom_of_token hb ht, hs, List.reverse_cons, List.append_assoc]
  rfl

/-- White space beyond ASCII lies in four gaps of a table of letters or digits. -/
theorem any_eq_false_of_isBlank {ranges : List (Nat × Nat)} {c : Char}
    (hgaps : ∀ r ∈ ranges, 0xaa ≤ r.1 ∧ (r.2 < 0x1680 ∨ 0x1680 < r.1) ∧
      (r.2 < 0x2000 ∨ 0x205f < r.1) ∧ (r.2 < 0x3000 ∨ 0x3000 < r.1)) (h : isBlank c = true) :
    (ranges.any fun (lo, hi) => lo ≤ c.toNat && c.toNat ≤ hi) = false := by
  simp only [isBlank, Bool.or_eq_true, Bool.and_eq_true, decide_eq_true_eq] at h
  rw [List.any_eq_false]
  intro r hr
  have := hgaps r hr
  simp only [Bool.and_eq_true, decide_eq_true_eq]
  omega

theorem lt_of_isBlank {c : Char} (h : isBlank c = true) (ha : c.toNat < 0x80) : c.toNat < 0x30 := by
  simp only [isBlank, Bool.or_eq_true, Bool.and_eq_true, decide_eq_true_eq] at h
  omega

theorem not_isAlphabetic_of_isBlank {c : Char} (h : isBlank c = true) :
    Unicode.isAlphabetic c = false := by
  unfold Unicode.isAlphabetic
  by_cases ha : c.toNat < 0x80
  · rw [if_pos ha]
    have hlow : ∀ n < 0x30, (Char.ofNat n).isAlpha = false := by decide
    have hl := hlow c.toNat (lt_of_isBlank h ha)
    rwa [Char.ofNat_toNat] at hl
  · rw [if_neg ha]
    exact any_eq_false_of_isBlank (by decide +kernel) h

theorem not_isNumeric_of_isBlank {c : Char} (h : isBlank c = true) :
    Unicode.isNumeric c = false := by
  unfold Unicode.isNumeric
  by_cases ha : c.toNat < 0x80
  · rw [if_pos ha]
    have hlow : ∀ n < 0x30, (Char.ofNat n).isDigit = false := by decide
    have hl := hlow c.toNat (lt_of_isBlank h ha)
    rwa [Char.ofNat_toNat] at hl
  · rw [if_neg ha]
    exact any_eq_false_of_isBlank (by decide +kernel) h

theorem not_isBlank_of_isNameStart {c : Char} (h : isNameStart c = true) : isBlank c = false := by
  by_contra hb
  have hb : isBlank c = true := Bool.of_not_eq_false hb
  simp only [isNameStart, not_isAlphabetic_of_isBlank hb, Bool.false_or, Bool.or_eq_true,
    decide_eq_true_eq] at h
  rcases h with rfl | rfl
  · exact absurd hb (by decide)
  · exact absurd hb (by decide)

/-- No name goes on with the text. -/
def EndsName (after : List Char) : Prop :=
  ∀ c ∈ after.head?, isNamePart c = false

theorem endsName_of_isBreak {after : List Char} (h : Path.IsBreak after) : EndsName after := by
  intro c hc
  rcases h c hc with rfl | rfl
  · decide
  · decide

theorem token_name {c : Char} {rest after : List Char} (hc : isNameStart c = true)
    (hrest : ∀ d ∈ rest, isNamePart d = true) (ha : EndsName after) :
    token c (rest ++ after) = .ok (.name (String.ofList (c :: rest)), after) := by
  have hne {d : Char} (hd : isNameStart d = false) : c ≠ d := by
    rintro rfl
    rw [hc] at hd
    contradiction
  have hnum : ¬(Number.isDigit c = true ∨ c = '.' ∧ (rest ++ after).head?.any Number.isDigit) := by
    rintro (hd | ⟨rfl, -⟩)
    · rw [not_isNameStart_of_isDigit hd] at hc
      contradiction
    · exact absurd hc (by decide)
  have hquote : ¬(c = '\x22' ∨ c = '\'') := by
    rintro (rfl | rfl)
    · exact absurd hc (by decide)
    · exact absurd hc (by decide)
  have hstop : after.takeWhile isNamePart = [] ∧ after.dropWhile isNamePart = after := by
    cases after with
    | nil => exact ⟨rfl, rfl⟩
    | cons d after =>
      have hd := ha d rfl
      exact ⟨List.takeWhile_cons_of_neg (by simp [hd]), List.dropWhile_cons_of_neg (by simp [hd])⟩
  unfold token
  rw [if_neg hnum, if_neg hquote, if_neg (hne (by decide)), if_pos hc,
    List.takeWhile_append_of_pos hrest, List.dropWhile_append_of_pos hrest, hstop.1, hstop.2,
    List.append_nil]

theorem Reads.name {s after : List Char} {ts : List Token} (h : Reads after ts) (hs : IsIdent s)
    (ha : EndsName after) : Reads (s ++ after) (.name (String.ofList s) :: ts) := by
  obtain ⟨c, rest, rfl, hc, hrest⟩ := hs
  exact h.token (not_isBlank_of_isNameStart hc) (token_name hc hrest ha)

theorem Reads.dot {rest : List Char} {ts : List Token} (h : Reads rest ts)
    (hd : ∀ c ∈ rest.head?, Number.isDigit c = false) : Reads ('.' :: rest) (.mark .dot :: ts) := by
  have hnum : ¬(Number.isDigit '.' = true ∨ '.' = '.' ∧ rest.head?.any Number.isDigit) := by
    rintro (hd | ⟨-, ha⟩)
    · exact absurd hd (by decide)
    · obtain ⟨c, hc, ht⟩ := (Option.any_eq_true _ _).1 ha
      rw [hd c hc] at ht
      contradiction
  refine h.token (by decide) ?_
  unfold Lexer.token
  rw [if_neg hnum]
  rfl

theorem Reads.left_bracket {rest : List Char} {ts : List Token} (h : Reads rest ts) :
    Reads ('[' :: rest) (.mark .leftBracket :: ts) :=
  h.token (by decide) rfl

theorem Reads.right_bracket {rest : List Char} {ts : List Token} (h : Reads rest ts) :
    Reads (']' :: rest) (.mark .rightBracket :: ts) :=
  h.token (by decide) rfl

/-- An escape between quotes. -/
theorem string_escape {quote e : Char} {done rest after : List Char} (hq : '\\' ≠ quote)
    (h : escape rest = .ok (e, after)) :
    string quote done ('\\' :: rest) = string quote (e :: done) after := by
  rw [string, if_neg hq, if_pos rfl]
  split
  · rename_i he
    obtain ⟨rfl, rfl⟩ := Prod.mk.inj (Except.ok.inj (h.symm.trans he))
    rfl
  · rename_i he
    rw [h] at he
    contradiction

theorem string_quotable {s : List Char} (h : IsQuotable s) (done rest : List Char) :
    string '\x22' done (s ++ '\x22' :: rest) =
      .ok (.string (String.ofList (done.reverse ++ s)), rest) := by
  induction s generalizing done with
  | nil => rw [List.nil_append, string, if_pos rfl, List.append_nil]
  | cons c s ih =>
    obtain ⟨⟨hq, hb⟩, hs⟩ := List.forall_mem_cons.1 h
    rw [List.cons_append, string, if_neg hq, if_neg hb, ih hs, List.reverse_cons,
      List.append_assoc]
    rfl

theorem Reads.string {s after : List Char} {ts : List Token} (h : Reads after ts)
    (hs : IsQuotable s) :
    Reads ('\x22' :: (s ++ '\x22' :: after)) (.string (String.ofList s) :: ts) :=
  h.token (by decide) (string_quotable hs [] after)

/-- No number goes on with the text. -/
def EndsNumber (after : List Char) : Prop :=
  ∀ c ∈ after.head?, isNamePart c = false ∧ c ≠ '.'

theorem endsNumber_right_bracket (after : List Char) : EndsNumber (']' :: after) := by
  intro c hc
  obtain rfl := Option.some.inj hc
  decide

theorem isNamePart_of_isDigit {c : Char} (h : Number.isDigit c = true) : isNamePart c = true := by
  have hascii : c.toNat < 0x80 := by
    have := (toNat_of_isDigit h).2
    omega
  unfold isNamePart Unicode.isNumeric
  rw [if_pos hascii]
  exact Bool.or_eq_true_iff.2 (Or.inr h)

namespace EndsNumber

variable {after : List Char} (h : EndsNumber after)
include h

theorem not_isDigit : ∀ c ∈ after.head?, Number.isDigit c = false := by
  intro c hc
  by_contra hd
  have hn := isNamePart_of_isDigit (Bool.of_not_eq_false hd)
  rw [(h c hc).1] at hn
  contradiction

theorem takeWhile_isDigit : after.takeWhile Number.isDigit = [] :=
  takeWhile_eq_nil h.not_isDigit

theorem dropWhile_isDigit : after.dropWhile Number.isDigit = after :=
  dropWhile_eq_self h.not_isDigit

theorem fraction_eq : fraction after = ([], after) := by
  unfold fraction
  split
  · exact absurd rfl (h '.' rfl).2
  · rfl

theorem scanExponent_eq : Number.scanExponent after = (none, after) := by
  cases after with
  | nil => rfl
  | cons c after =>
    unfold Number.scanExponent
    dsimp only
    rw [if_neg]
    rintro (rfl | rfl)
    · exact absurd (h 'e' rfl).1 (by decide)
    · exact absurd (h 'E' rfl).1 (by decide)

end EndsNumber

/-- Digits behind which no number goes on are the number that they spell. -/
theorem decimalNumber_toString (n : Nat) {after : List Char} (ha : EndsNumber after) :
    decimalNumber ((toString n).toList ++ after) = .ok (.number (Number.ofDecimal n 0), after) := by
  have hd : ∀ c ∈ (toString n).toList, Number.isDigit c = true := fun c => isDigit_of_mem_toString
  have hw : ((toString n).toList ++ after).takeWhile Number.isDigit = (toString n).toList := by
    rw [List.takeWhile_append_of_pos hd, ha.takeWhile_isDigit, List.append_nil]
  have ht : ((toString n).toList ++ after).dropWhile Number.isDigit = after := by
    rw [List.dropWhile_append_of_pos hd, ha.dropWhile_isDigit]
  have hv : (Number.Scanned.mk (toString n).toList [] none after).value? =
      some (Number.ofDecimal n 0) := by
    show (digits? 10 ((toString n).toList ++ [])).map _ = _
    rw [List.append_nil, digits?_toString]
    rfl
  unfold decimalNumber
  rw [hw, ht, ha.fraction_eq]
  dsimp only
  rw [ha.scanExponent_eq]
  dsimp only
  rw [hv]

/-- No hexadecimal number begins with digits behind which no number goes on. -/
theorem number_digits {c : Char} {s after : List Char} (hs : ∀ d ∈ s, Number.isDigit d = true)
    (ha : EndsNumber after) : number (c :: (s ++ after)) = decimalNumber (c :: (s ++ after)) := by
  have hx {d : Char} {rest : List Char} (hd : Number.isDigit d = false) (hp : isNamePart d = true) :
      s ++ after ≠ d :: rest := by
    cases s with
    | nil =>
      rintro rfl
      rw [(ha d rfl).1] at hp
      contradiction
    | cons e s =>
      intro he
      have := hs e List.mem_cons_self
      rw [(List.cons.inj he).1, hd] at this
      contradiction
  unfold number
  split
  · rename_i he
    exact absurd (List.cons.inj he).2 (hx (by decide) (by decide))
  · rename_i he
    exact absurd (List.cons.inj he).2 (hx (by decide) (by decide))
  · rfl

theorem Reads.digits {after : List Char} {ts : List Token} (h : Reads after ts) (n : Nat)
    (ha : EndsNumber after) :
    Reads ((toString n).toList ++ after) (.number (Number.ofDecimal n 0) :: ts) := by
  have hn := decimalNumber_toString n ha
  have hd : ∀ c ∈ (toString n).toList, Number.isDigit c = true := fun c => isDigit_of_mem_toString
  have hne := toString_ne_nil n
  revert hn hd hne
  cases (toString n).toList with
  | nil => exact fun _ _ hne => absurd rfl hne
  | cons c s =>
    intro hn hd _
    obtain ⟨hc, hs⟩ := List.forall_mem_cons.1 hd
    refine h.token (not_isBlank_of_isDigit hc) ?_
    rw [token_of_number (Or.inl hc)]
    exact (number_digits hs ha).trans hn

end Lexer

/-- The tokens of a text in brackets. -/
def inBrackets (t : Token) : List Token :=
  [.mark .leftBracket, t, .mark .rightBracket]

def Hop.tokens : Hop → List Token
  | .name s _ => [.mark .dot, .name (String.ofList s)]
  | .key s _ => inBrackets (.string (String.ofList s))
  | .index n => inBrackets (.number (Number.ofDecimal n 0))

def Root.tokens : Root → List Token
  | .json => [.name "$json"]
  | .vars => [.name "$vars"]
  | .workflow => [.name "$workflow"]
  | .execution => [.name "$execution"]
  | .node name _ => .name "$node" :: inBrackets (.string (String.ofList name))

namespace Lexer

theorem Reads.quoted {s after : List Char} {ts : List Token} (h : Reads after ts)
    (hs : IsQuotable s) : Reads ('[' :: '\x22' :: (s ++ '\x22' :: ']' :: after))
      (inBrackets (.string (String.ofList s)) ++ ts) :=
  (h.right_bracket.string hs).left_bracket

theorem Reads.hop {rest : List Char} {ts : List Token} (h : Reads rest ts) (hop : Hop)
    (hb : Path.IsBreak rest) : Reads (hop.text ++ rest) (hop.tokens ++ ts) := by
  cases hop with
  | name s hs =>
    refine (h.name hs (endsName_of_isBreak hb)).dot fun c hc => ?_
    have hi := hs.isNoIndex
    obtain ⟨d, tail, rfl, -⟩ := hs
    exact (hi c hc).2
  | key s hs =>
    rw [Hop.text_key_append]
    exact h.quoted hs.quotable
  | index n =>
    rw [Hop.text_index_append]
    exact (h.right_bracket.digits n (endsNumber_right_bracket _)).left_bracket

theorem reads_hops (hops : List Hop) :
    Reads (hops.flatMap Hop.text) (hops.flatMap Hop.tokens ++ [.stop]) := by
  induction hops with
  | nil => exact reads_nil
  | cons hop hops ih =>
    rw [List.flatMap_cons, List.flatMap_cons, List.append_assoc]
    exact ih.hop hop (Path.isBreak_texts hops)

theorem Reads.root {rest : List Char} {ts : List Token} (h : Reads rest ts) (root : Root)
    (hb : Path.IsBreak rest) : Reads (root.text ++ rest) (root.tokens ++ ts) := by
  cases root with
  | json => exact h.name (by decide) (endsName_of_isBreak hb)
  | vars => exact h.name (by decide) (endsName_of_isBreak hb)
  | workflow => exact h.name (by decide) (endsName_of_isBreak hb)
  | execution => exact h.name (by decide) (endsName_of_isBreak hb)
  | node name hn =>
    have hbreak : Path.IsBreak ('[' :: '\x22' :: (name ++ '\x22' :: ']' :: rest)) := fun c hc =>
      Or.inr (Option.some.inj hc).symm
    rw [Root.text_node_append]
    exact (h.quoted hn).name (by decide) (endsName_of_isBreak hbreak)

end Lexer

/-- A plain reference is cut into the tokens of its root and its hops. -/
theorem PlainReference.tokenize_text (p : PlainReference) :
    ∃ spanned : List Spanned, tokenize (String.ofList p.text) = .ok spanned ∧
      spanned.map Spanned.token = p.root.tokens ++ (p.hops.flatMap Hop.tokens ++ [.stop]) := by
  have h := (Lexer.reads_hops p.hops).root p.root p.isBreak_path
  unfold tokenize
  rw [String.toList_ofList]
  exact h _ []

end Workflow
