import Workflow.Proofs.Expr.Spelling

/-! How spelled expressions begin: with a token with which expressions can begin, and in a way that
keeps them apart from the parameters of a function. -/
namespace Workflow

open Parser.Scope

namespace Token

/-- Whether an expression can begin with the token. -/
def starts : Token → Bool
  | .number _ | .string _ | .template _ | .name _ => true
  | .mark m => m ∈ [.leftParen, .leftBracket, .leftBrace, .bang, .plus, .minus]
  | .stop => false

/-- Whether the token can follow the name of a parameter in parentheses. -/
def endsParam : Token → Bool
  | .mark m => m ∈ [.comma, .rightParen]
  | _ => false

/-- Whether the token can be the first behind an opening parenthesis in front of parameters. -/
def startsParams : Token → Bool
  | .name _ => true
  | .mark m => m = .rightParen
  | _ => false

/-- Whether a function can begin with the token. -/
def startsHead : Token → Bool
  | .name _ => true
  | .mark m => m = .leftParen
  | _ => false

def isArrow : Token → Bool
  | .mark m => m = .arrow
  | _ => false

theorem ne_of_starts {t : Token} {m : Mark} (h : t.starts = true)
    (hm : (Token.mark m).starts = false) : t ≠ .mark m := by
  rintro rfl
  rw [hm] at h
  contradiction

theorem endsParam_of_starts {t : Token} (h : t.starts = true) : t.endsParam = false := by
  cases t with
  | mark m =>
    cases m
    all_goals first | rfl | contradiction
  | _ => rfl

theorem isArrow_of_starts {t : Token} (h : t.starts = true) : t.isArrow = false := by
  cases t with
  | mark m =>
    cases m
    all_goals first | rfl | contradiction
  | _ => rfl

end Token

/-- An expression can begin with the first of the tokens. -/
def Starts (ts : List Token) : Prop :=
  ∃ t rest, ts = t :: rest ∧ t.starts = true

theorem Starts.append {ts : List Token} (h : Starts ts) (us : List Token) : Starts (ts ++ us) := by
  obtain ⟨t, rest, rfl, ht⟩ := h
  exact ⟨t, rest ++ us, rfl, ht⟩

theorem starts_cons {t : Token} (h : t.starts = true) (rest : List Token) : Starts (t :: rest) :=
  ⟨t, rest, rfl, h⟩

theorem UnaryOp.starts_token (op : UnaryOp) : op.token.starts = true := by
  cases op
  all_goals rfl

theorem starts_paramTokens (params : List String) (rest : List Token) :
    Starts (paramTokens params ++ rest) := by
  unfold paramTokens
  split
  · exact starts_cons rfl _
  · exact starts_cons rfl _

mutual

theorem Spells.starts {e : Expr} {ts : List Token} {n : Nat} : Spells e ts n → Starts ts
  | .number _ | .string _ | .true | .false | .null | .undefined | .name _ => starts_cons rfl _
  | .template _ | .array _ | .object _ | .construct _ _ => starts_cons rfl _
  | .member _ _ h => h.starts.append _
  | .index _ h _ => h.starts.append _
  | .call _ h _ => h.starts.append _
  | .unary op _ => starts_cons op.starts_token _
  | .power h _ => h.starts.append _
  | .binary _ h _ => h.starts.append _
  | .logical h _ => h.starts.append _
  | .conditional h _ _ => h.starts.append _
  | .arrow params _ => starts_paramTokens params _
termination_by structural h => h

theorem SpellsAt.starts {level : Nat} {e : Expr} {ts : List Token} {n : Nat} :
    SpellsAt level e ts n → Starts ts
  | .bare _ h => h.starts
  | .enclosed _ _ | .new _ _ => starts_cons rfl _
termination_by structural h => h

end

theorem SpellsKey.starts {t : Token} {key : String} (h : SpellsKey t key) : t.starts = true := by
  cases h
  all_goals rfl

theorem SpellsEntry.starts {entry : String × Expr} {ts : List Token} {n : Nat}
    (h : SpellsEntry entry ts n) : Starts ts := by
  cases h with
  | pair hk _ => exact starts_cons hk.starts _
  | short hk => exact starts_cons hk.starts _

theorem Joint.level_le (j : Joint) : j.level ≤ 7 := by
  cases j with
  | binary op =>
    cases op
    all_goals decide
  | logical op =>
    cases op
    all_goals decide

theorem Joint.level_add_le (j : Joint) {k : Nat} (hk : k ≤ 4) : j.level + k ≤ 11 := by
  have := j.level_le
  omega

/-- Operators stand neither behind parameters nor in front of the body of a function. -/
theorem Joint.endsParam_mark (j : Joint) : (Token.mark j.mark).endsParam = false := by
  cases j with
  | binary op =>
    cases op
    all_goals rfl
  | logical op =>
    cases op
    all_goals rfl

theorem Joint.isArrow_mark (j : Joint) : (Token.mark j.mark).isArrow = false := by
  cases j with
  | binary op =>
    cases op
    all_goals rfl
  | logical op =>
    cases op
    all_goals rfl

/-- The tokens are no parameters behind an opening parenthesis, however they go on. -/
def NoParams (ts : List Token) : Prop :=
  ∃ t rest, ts = t :: rest ∧
    (t.startsParams = false ∨ ∃ x u more, t = .name x ∧ rest = u :: more ∧ u.endsParam = false)

namespace NoParams

theorem append {ts : List Token} (h : NoParams ts) (us : List Token) : NoParams (ts ++ us) := by
  obtain ⟨t, rest, rfl, ht | ⟨x, u, more, rfl, rfl, hu⟩⟩ := h
  · exact ⟨t, rest ++ us, rfl, Or.inl ht⟩
  · exact ⟨.name x, u :: more ++ us, rfl, Or.inr ⟨x, u, more ++ us, rfl, rfl, hu⟩⟩

theorem of_token {t : Token} (h : t.startsParams = false) (rest : List Token) :
    NoParams (t :: rest) :=
  ⟨t, rest, rfl, Or.inl h⟩

theorem of_name (x : String) {u : Token} (h : u.endsParam = false) (rest : List Token) :
    NoParams (.name x :: u :: rest) :=
  ⟨.name x, u :: rest, rfl, Or.inr ⟨x, u, rest, rfl, rfl, h⟩⟩

theorem of_starts (x : String) {ts : List Token} (h : Starts ts) : NoParams (.name x :: ts) := by
  obtain ⟨t, rest, rfl, ht⟩ := h
  exact of_name x (Token.endsParam_of_starts ht) rest

theorem params?_eq_none {ts : List Spanned} (h : NoParams (ts.map Spanned.token)) :
    params? ts = none := by
  obtain ⟨t, us, hts, ht⟩ := h
  unfold params?
  split
  · obtain rfl := (List.cons.inj hts).1
    rcases ht with ht | ⟨x, -, -, hx, -⟩
    · cases ht
    · contradiction
  · obtain ⟨rfl, rfl⟩ := List.cons.inj hts
    rcases ht with ht | ⟨x, u, more, -, hu, he⟩
    · contradiction
    · obtain ⟨rfl, -⟩ := List.cons.inj hu
      cases he
  · obtain ⟨rfl, rfl⟩ := List.cons.inj hts
    rcases ht with ht | ⟨x, u, more, -, hu, he⟩
    · contradiction
    · obtain ⟨rfl, -⟩ := List.cons.inj hu
      cases he
  · rfl

end NoParams

/-- The tokens are no parameters if they go on with anything else than a comma or a closing
parenthesis. -/
def NoParamsBefore (ts : List Token) : Prop :=
  NoParams ts ∨ ∃ x, ts = [.name x]

theorem NoParamsBefore.append {ts : List Token} (h : NoParamsBefore ts) {u : Token}
    (hu : u.endsParam = false) (us : List Token) : NoParams (ts ++ u :: us) := by
  rcases h with h | ⟨x, rfl⟩
  · exact h.append _
  · exact .of_name x hu us

theorem NoParamsBefore.append_opening {ts : List Token} (h : NoParamsBefore ts) (optional : Bool)
    {m : Mark} (hm : (Token.mark m).endsParam = false) (us : List Token) :
    NoParams (ts ++ (opening optional m ++ us)) := by
  cases optional
  · exact h.append hm us
  · exact h.append rfl _

mutual

theorem Spells.noParams {e : Expr} {ts : List Token} {n : Nat} :
    Spells e ts n → NoParams ts ∨ e.level = 11 ∧ ∃ x, ts = [.name x]
  | .true | .false | .null | .undefined | .name _ => Or.inr ⟨rfl, _, rfl⟩
  | .number _ | .string _ | .template _ | .array _ | .object _ => Or.inl (.of_token rfl _)
  | .member _ optional h => Or.inl (h.noParamsBefore.append (by cases optional <;> rfl) _)
  | .index optional h _ => Or.inl (h.noParamsBefore.append_opening optional rfl _)
  | .call optional h _ => Or.inl (h.noParamsBefore.append_opening optional rfl _)
  | .construct h _ => Or.inl (.of_starts _ (h.starts.append _))
  | .unary op h => by
    cases op
    case typeOf => exact Or.inl (.of_starts _ h.starts)
    all_goals exact Or.inl (.of_token rfl _)
  | .power h _ => Or.inl (h.noParamsBefore.append rfl _)
  | .binary _ h _ => Or.inl (h.noParamsBefore.append (Joint.endsParam_mark _) _)
  | .logical h _ => Or.inl (h.noParamsBefore.append (Joint.endsParam_mark _) _)
  | .conditional h _ _ => Or.inl (h.noParamsBefore.append rfl _)
  | .arrow params _ => by
    unfold paramTokens
    split
    -- an arrow ends no parameters
    · exact Or.inl (.of_name _ rfl _)
    · exact Or.inl (.of_token rfl _)
termination_by structural h => h

theorem SpellsAt.noParamsBefore {level : Nat} {e : Expr} {ts : List Token} {n : Nat} :
    SpellsAt level e ts n → NoParamsBefore ts
  | .bare _ h => h.noParams.imp_right And.right
  | .enclosed _ _ => Or.inl (.of_token rfl _)
  | .new _ h => Or.inl (.of_starts _ h.starts)
termination_by structural h => h

end

theorem arrowHead?_eq_none {ts : List Spanned}
    (hn : ∀ x u rest, ts.map Spanned.token = .name x :: u :: rest → u.isArrow = false)
    (hp : ∀ t rest, ts = t :: rest → t.token = .mark .leftParen → params? rest = none) :
    arrowHead? ts = none := by
  unfold arrowHead?
  split
  · cases hn _ _ _ rfl
  · rw [hp _ _ rfl rfl]
  · rfl

/-- No function begins with the tokens, unless an arrow follows them. -/
def NoArrowHead (ts : List Token) : Prop :=
  ∀ sp rest : List Spanned, sp.map Spanned.token = ts →
    (∀ u ∈ rest.head?, u.token.isArrow = false) → arrowHead? (sp ++ rest) = none

namespace NoArrowHead

theorem append {ts : List Token} (h : NoArrowHead ts) {u : Token} (hu : u.isArrow = false)
    (us : List Token) : NoArrowHead (ts ++ u :: us) := by
  intro sp rest hsp _
  obtain ⟨sp, more, rfl, hts, hmore⟩ := List.map_eq_append_iff.1 hsp
  obtain ⟨o, more, rfl, -⟩ := exists_of_map_token hmore
  rw [List.append_assoc]
  refine h sp _ hts fun v hv => ?_
  obtain rfl := Option.some.inj hv
  exact hu

theorem append_opening {ts : List Token} (h : NoArrowHead ts) (optional : Bool) {m : Mark}
    (hm : (Token.mark m).isArrow = false) (us : List Token) :
    NoArrowHead (ts ++ (opening optional m ++ us)) := by
  cases optional
  · exact h.append hm us
  · exact h.append rfl _

theorem of_token {t : Token} (ht : t.startsHead = false) (ts : List Token) :
    NoArrowHead (t :: ts) := by
  intro sp rest hsp _
  obtain ⟨o, sp, rfl, -⟩ := exists_of_map_token hsp
  refine arrowHead?_eq_none (fun x u more he => ?_) fun v more he hv => ?_
  · obtain rfl := (List.cons.inj he).1
    cases ht
  · obtain rfl : t = v.token := congrArg Spanned.token (List.cons.inj he).1
    rw [hv] at ht
    cases ht

theorem of_name (x : String) : NoArrowHead [.name x] := by
  intro sp rest hsp ha
  obtain ⟨o, rfl⟩ := exists_of_map_singleton hsp
  refine arrowHead?_eq_none (fun y u more he => ?_) fun v more he hv => ?_
  · obtain ⟨v, rest, rfl, rfl, -⟩ := List.map_eq_cons_iff.1 (List.cons.inj he).2
    exact ha v rfl
  · obtain rfl := (List.cons.inj he).1
    cases hv

theorem of_starts (x : String) {ts : List Token} (h : Starts ts) : NoArrowHead (.name x :: ts) := by
  obtain ⟨t, ts, rfl, ht⟩ := h
  exact (of_name x).append (Token.isArrow_of_starts ht) ts

theorem of_noParams {ts : List Token} (h : NoParams ts) :
    NoArrowHead (.mark .leftParen :: ts) := by
  intro sp rest hsp _
  obtain ⟨o, sp, rfl, hts⟩ := exists_of_map_token hsp
  refine arrowHead?_eq_none (fun x u more he => ?_) fun v more he hv => ?_
  · cases (List.cons.inj he).1
  · obtain ⟨-, rfl⟩ := List.cons.inj he
    refine NoParams.params?_eq_none ?_
    show NoParams ((sp ++ rest).map Spanned.token)
    rw [List.map_append, hts]
    exact h.append _

end NoArrowHead

theorem Expr.ne_arrow_of_level {e : Expr} (h : 0 < e.level) (params : List String) (body : Expr) :
    e ≠ .arrow params body := by
  rintro rfl
  exact Nat.lt_irrefl 0 h

theorem Expr.level_le (e : Expr) : e.level ≤ 11 := by
  unfold level
  split
  case h_3 op _ _ => exact Nat.le_trans (Nat.succ_le_succ (Joint.level_le _)) (by decide)
  case h_4 op _ _ => exact Nat.le_trans (Nat.succ_le_succ (Joint.level_le _)) (by decide)
  all_goals decide

mutual

/-- Only functions begin with parameters and an arrow. -/
theorem Spells.noArrowHead {e : Expr} {ts : List Token} {n : Nat} :
    Spells e ts n → (∀ params body, e ≠ .arrow params body) → NoArrowHead ts
  | .true, _ | .false, _ | .null, _ | .undefined, _ | .name _, _ => .of_name _
  | .number _, _ | .string _, _ | .template _, _ | .array _, _ | .object _, _ => .of_token rfl _
  | .member _ optional h, _ =>
    (h.noArrowHead (by decide) (by decide)).append (by cases optional <;> rfl) _
  | .index optional h _, _ =>
    (h.noArrowHead (by decide) (by decide)).append_opening optional rfl _
  | .call optional h _, _ =>
    (h.noArrowHead (by decide) (by decide)).append_opening optional rfl _
  | .construct h _, _ => .of_starts _ (h.starts.append _)
  | .unary op h, _ => by
    cases op
    case typeOf => exact .of_starts _ h.starts
    all_goals exact .of_token rfl _
  | .power h _, _ => (h.noArrowHead (by decide) (by decide)).append rfl _
  | .binary _ h _, _ =>
    (h.noArrowHead (Nat.succ_pos _) (Joint.level_add_le _ (by decide))).append
      (Joint.isArrow_mark _) _
  | .logical h _, _ =>
    (h.noArrowHead (Nat.succ_pos _) (Joint.level_add_le _ (by decide))).append
      (Joint.isArrow_mark _) _
  | .conditional h _ _, _ => (h.noArrowHead (by decide) (by decide)).append rfl _
  | .arrow params _, hne => absurd rfl (hne params _)
termination_by structural h => h

theorem SpellsAt.noArrowHead {level : Nat} {e : Expr} {ts : List Token} {n : Nat} :
    SpellsAt level e ts n → 0 < level → level ≤ 11 → NoArrowHead ts
  | .bare hl h, hp, _ => h.noArrowHead (Expr.ne_arrow_of_level (Nat.lt_of_lt_of_le hp hl))
  | .enclosed hl h, _, hle => by
    refine .of_noParams ?_
    rcases h.noParams with hn | ⟨he, -⟩
    · exact hn.append _
    -- a name alone stands at every level without parentheses
    · omega
  | .new _ h, _, _ => .of_starts _ h.starts
termination_by structural h => h

end

end Workflow
