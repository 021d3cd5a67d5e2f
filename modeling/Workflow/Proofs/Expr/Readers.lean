import Workflow.Proofs.Expr.Opening

/-! Readers in front of tokens behind which what they read does not go on: how each of them reads
what stands in its place, given what the readers inside of it read. -/
namespace Workflow

/-- The level of the expression that goes on when the token stands behind an operand. -/
def Token.continues? : Token → Option Nat
  | .mark .dot | .mark .questionDot | .mark .leftBracket | .mark .leftParen => some 10
  | .mark .starStar => some 8
  | .mark .question | .mark .arrow => some 0
  | .mark m => (Joint.ofMark? m).map (·.level + 1)
  | _ => none

theorem Joint.continues?_of_ofMark? {m : Mark} {j : Joint} (h : ofMark? m = some j) :
    (Token.mark m).continues? = some (j.level + 1) := by
  cases m
  all_goals first
    | contradiction
    | exact congrArg (Option.map (·.level + 1)) h

theorem Joint.ofMark?_mark {j : Joint} (h : j ≠ .binary .pow) : ofMark? j.mark = some j := by
  cases j with
  | logical op =>
    cases op
    all_goals rfl
  | binary op =>
    cases op
    case pow => exact absurd rfl h
    all_goals rfl

theorem Joint.level_le_six {j : Joint} (h : j ≠ .binary .pow) : j.level ≤ 6 := by
  cases j with
  | logical op =>
    cases op
    all_goals decide
  | binary op =>
    cases op
    case pow => exact absurd rfl h
    all_goals decide

theorem Joint.continues?_mark {j : Joint} (h : j ≠ .binary .pow) :
    (Token.mark j.mark).continues? = some (j.level + 1) :=
  continues?_of_ofMark? (ofMark?_mark h)

namespace Parser

/-- No expression of the level or above goes on with the tokens. -/
def Stops (level : Nat) (ts : List Spanned) : Prop :=
  ∀ t ∈ ts.head?, ∀ k ∈ t.token.continues?, k < level

namespace Stops

variable {level : Nat} {ts : List Spanned}

theorem mono {level' : Nat} (h : Stops level ts) (hl : level ≤ level') : Stops level' ts :=
  fun t ht k hk => Nat.lt_of_lt_of_le (h t ht k hk) hl

theorem cons {t : Token} {k : Nat} (ht : t.continues? = some k) (hk : k < level) (o : Nat)
    (ts : List Spanned) : Stops level (⟨t, o⟩ :: ts) := by
  intro u hu l hl
  obtain rfl := Option.some.inj hu
  obtain rfl := Option.some.inj (ht.symm.trans hl)
  exact hk

theorem of_none {t : Token} (ht : t.continues? = none) (o : Nat) (ts : List Spanned) :
    Stops level (⟨t, o⟩ :: ts) := by
  intro u hu l hl
  obtain rfl := Option.some.inj hu
  rw [ht] at hl
  contradiction

theorem mark?_eq_none {m : Mark} {k : Nat} (h : Stops level ts) (hk : level ≤ k)
    (hm : (Token.mark m).continues? = some k) : mark? m ts = none := by
  unfold mark?
  split
  · rename_i m' o rest
    refine if_neg ?_
    rintro rfl
    exact Nat.lt_irrefl k (Nat.lt_of_lt_of_le (h _ rfl k hm) hk)
  · rfl

theorem link?_eq_none (h : Stops 10 ts) (s : Scope) (e : Expr) : s.link? e ts = none := by
  unfold Scope.link?
  split
  case h_7 => rfl
  all_goals exact absurd (h _ rfl 10 rfl) (Nat.lt_irrefl 10)

theorem joint?_eq_none (h : Stops (level + 1) ts) : Scope.joint? level ts = none := by
  unfold Scope.joint?
  split
  · rename_i m o rest
    cases hj : Joint.ofMark? m with
    | none => rfl
    | some j =>
      have hl := h _ rfl _ (Joint.continues?_of_ofMark? hj)
      have hne : ¬ j.level = level := by omega
      simp only [Option.filter, hne, decide_false, Option.map_none, Bool.false_eq_true, if_false]
  · rfl

theorem not_isArrow (h : Stops 0 ts) : ∀ t ∈ ts.head?, t.token.isArrow = false := by
  intro t ht
  by_contra ha
  obtain ⟨token, o⟩ := t
  cases token with
  | mark m =>
    cases m with
    | arrow => exact absurd (h _ ht 0 rfl) (Nat.lt_irrefl 0)
    | _ => exact ha rfl
  | _ => exact ha rfl

end Stops

/-- The reader gives back this result and leaves these tokens. -/
def Yields {α : Type} {p : List Spanned → Prop} (r : Except ParseFault (α × Subtype p)) (a : α)
    (rest : List Spanned) : Prop :=
  ∃ h, r = .ok (a, ⟨rest, h⟩)

namespace Scope

variable {s : Scope} {e e' : Expr} {sp us rest more : List Spanned}

/-- The tokens are read as an operand without links. -/
def ReadsPrimary (s : Scope) (sp : List Spanned) (e : Expr) : Prop :=
  (∃ t ts, sp = t :: ts ∧ isNew t.token = false ∧ unaryOp? t.token = none) ∧
    ∀ rest, Yields (s.primary (sp ++ rest)) e rest

/-- The tokens are read as an operand, and links go on from it. -/
def ReadsChain (s : Scope) (sp : List Spanned) (e : Expr) : Prop :=
  ∀ rest e' more, Yields (s.links e rest) e' more → Yields (s.unary (sp ++ rest)) e' more

def ReadsUnary (s : Scope) (sp : List Spanned) (e : Expr) : Prop :=
  ∀ rest, Stops 9 rest → Yields (s.unary (sp ++ rest)) e rest

/-- The tokens are read as an operand of the operators outside of so many levels. -/
def ReadsOperand (s : Scope) (count : Nat) (sp : List Spanned) (e : Expr) : Prop :=
  ∀ rest, Stops (8 - count) rest → Yields (s.operators count (sp ++ rest)) e rest

/-- The tokens are read as an operand to which the operators of the next level join others. -/
def ReadsLeft (s : Scope) (count : Nat) (sp : List Spanned) (e : Expr) : Prop :=
  ∀ rest e' more, Stops (8 - count) rest →
    Yields (joined (s.operators count) (Joint.levelCount - (count + 1)) e rest) e' more →
      Yields (s.operators (count + 1) (sp ++ rest)) e' more

def ReadsExpression (s : Scope) (sp : List Spanned) (e : Expr) : Prop :=
  ∀ rest, Stops 0 rest → Yields (s.expression (sp ++ rest)) e rest

theorem links_of_stops (h : Stops 10 rest) : Yields (s.links e rest) e rest := by
  refine ⟨Nat.le_refl _, ?_⟩
  rw [links, h.link?_eq_none]

theorem joined_of_stops {operand : (ts : List Spanned) → Parsed Expr ts} {level : Nat}
    (h : Stops (level + 1) rest) : Yields (joined operand level e rest) e rest := by
  refine ⟨Nat.le_refl _, ?_⟩
  rw [joined, h.joint?_eq_none]

theorem unary_eq_chain {t : Spanned} (ht : unaryOp? t.token = none) (ts : List Spanned) :
    s.unary (t :: ts) = s.chain (t :: ts) := by
  unfold unary
  dsimp only
  rw [ht]

theorem chain_of_head {ts : List Spanned} (hh : Yields (s.head ts) e rest)
    (hl : Yields (s.links e rest) e' more) : Yields (s.chain ts) e' more := by
  obtain ⟨_, hh⟩ := hh
  obtain ⟨_, hl⟩ := hl
  unfold chain
  rw [hh]
  dsimp only [bind, Except.bind]
  rw [hl]
  exact ⟨_, rfl⟩

theorem ReadsPrimary.chain (h : s.ReadsPrimary sp e) : s.ReadsChain sp e := by
  obtain ⟨⟨t, ts, rfl, hn, hu⟩, hp⟩ := h
  intro rest e' more hl
  have hh : s.head (t :: ts ++ rest) = s.primary (t :: ts ++ rest) := by
    show (if isNew t.token then _ else _) = _
    rw [hn]
    rfl
  rw [List.cons_append, unary_eq_chain hu]
  exact chain_of_head (hh ▸ hp rest) hl

theorem ReadsChain.unary (h : s.ReadsChain sp e) : s.ReadsUnary sp e :=
  fun rest hr => h rest e rest (links_of_stops (hr.mono (by decide)))

theorem ReadsUnary.operand (h : s.ReadsUnary sp e) : s.ReadsOperand 0 sp e := by
  intro rest hr
  obtain ⟨_, hu⟩ := h rest (hr.mono (by decide))
  unfold operators power
  rw [hu]
  dsimp only [bind, Except.bind]
  rw [hr.mark?_eq_none (Nat.le_refl 8) rfl]
  exact ⟨_, rfl⟩

theorem ReadsOperand.left {count : Nat} (h : s.ReadsOperand count sp e) :
    s.ReadsLeft count sp e := by
  intro rest e' more hr hj
  obtain ⟨_, ho⟩ := h rest hr
  obtain ⟨_, hj⟩ := hj
  unfold operators
  rw [ho]
  dsimp only [bind, Except.bind]
  rw [hj]
  exact ⟨_, rfl⟩

theorem ReadsLeft.operand {count : Nat} (hc : count ≤ 6) (h : s.ReadsLeft count sp e) :
    s.ReadsOperand (count + 1) sp e := by
  intro rest hr
  refine h rest e rest (hr.mono (by omega)) (joined_of_stops ?_)
  exact hr.mono (by unfold Joint.levelCount; omega)

theorem ReadsOperand.expression (h : s.ReadsOperand 7 sp e)
    (ha : NoArrowHead (sp.map Spanned.token)) : s.ReadsExpression sp e := by
  intro rest hr
  obtain ⟨_, ho⟩ := h rest (hr.mono (by decide))
  unfold Scope.expression
  rw [ha sp rest rfl hr.not_isArrow]
  dsimp only [bind, Except.bind, Joint.levelCount]
  rw [ho]
  dsimp only
  rw [hr.mark?_eq_none (Nat.le_refl 0) rfl]
  exact ⟨_, rfl⟩

/-- The tokens are read as an expression of the level: by the tightest of the readers that read
all such expressions. -/
def ReadsAt (s : Scope) : Nat → List Spanned → Expr → Prop
  | 0 => s.ReadsExpression
  | 1 => s.ReadsLeft 6
  | 2 => s.ReadsLeft 5
  | 3 => s.ReadsLeft 4
  | 4 => s.ReadsLeft 3
  | 5 => s.ReadsLeft 2
  | 6 => s.ReadsLeft 1
  | 7 => s.ReadsLeft 0
  | 8 => s.ReadsOperand 0
  | 9 => s.ReadsUnary
  | 10 => s.ReadsChain
  | _ => s.ReadsPrimary

theorem readsAt_succ (s : Scope) {level : Nat} (hl : level ≤ 6) :
    s.ReadsAt (level + 1) = s.ReadsLeft (6 - level) := by
  match level with
  | 0 | 1 | 2 | 3 | 4 | 5 | 6 => rfl

namespace ReadsAt

variable {level : Nat}

theorem pred (h : s.ReadsAt (level + 1) sp e) (hl : level ≤ 10)
    (ha : NoArrowHead (sp.map Spanned.token)) : s.ReadsAt level sp e := by
  match level with
  | 10 => exact ReadsPrimary.chain h
  | 9 => exact ReadsChain.unary h
  | 8 => exact ReadsUnary.operand h
  | 7 => exact ReadsOperand.left h
  | 6 | 5 | 4 | 3 | 2 | 1 => exact (ReadsLeft.operand (by decide) h).left
  | 0 => exact (ReadsLeft.operand (Nat.le_refl 6) h).expression ha

/-- What holds together tightly is read wherever something looser may stand. -/
theorem of_le {level' : Nat} (h : s.ReadsAt level' sp e) (hl : level ≤ level') (hl' : level' ≤ 11)
    (ha : 0 < level' → NoArrowHead (sp.map Spanned.token)) : s.ReadsAt level sp e := by
  obtain ⟨k, rfl⟩ := Nat.exists_eq_add_of_le hl
  induction k with
  | zero => exact h
  | succ k ih =>
    have ha := ha (Nat.succ_pos _)
    exact ih (pred h (by omega) ha) (by omega) (by omega) fun _ => ha

/-- Behind an operator of the level, its right operand is read. -/
theorem operand (h : s.ReadsAt (level + 2) sp e) (hl : level ≤ 6) :
    s.ReadsOperand (6 - level) sp e := by
  match level with
  | 6 => exact h
  | 5 | 4 | 3 | 2 | 1 | 0 => exact ReadsLeft.operand (by decide) h

end ReadsAt

/-- The reader of inner expressions reads the tokens. -/
def ReadsInner (s : Scope) (sp : List Spanned) (e : Expr) : Prop :=
  ∀ rest, Stops 0 rest → Yields (s.nested .expression (sp ++ rest)) e rest

/-- The mark is no comma, and no expression begins or goes on with it. -/
def IsClosing (m : Mark) : Prop :=
  m ≠ .comma ∧ (Token.mark m).starts = false ∧ (Token.mark m).continues? = none

theorem isClosing_rightParen : IsClosing .rightParen :=
  ⟨by decide, rfl, rfl⟩

theorem isClosing_rightBracket : IsClosing .rightBracket :=
  ⟨by decide, rfl, rfl⟩

/-- Between brackets that end with the mark, the tokens are read as these expressions. -/
def ReadsItems (s : Scope) (close : Mark) (sp : List Spanned) (es : List Expr) : Prop :=
  ∀ o rest, Yields (s.items close (sp ++ ⟨.mark close, o⟩ :: rest)) es rest

theorem mark?_of_starts {m : Mark} (h : Starts (sp.map Spanned.token))
    (hm : (Token.mark m).starts = false) (rest : List Spanned) : mark? m (sp ++ rest) = none := by
  obtain ⟨t, ts, hts, ht⟩ := h
  obtain ⟨o, sp, rfl, -⟩ := exists_of_map_token hts
  cases t with
  | mark m' => exact if_neg fun he => Token.ne_of_starts ht hm (congrArg Token.mark he)
  | _ => rfl

theorem mark?_self (m : Mark) (o : Nat) (rest : List Spanned) :
    mark? m (⟨.mark m, o⟩ :: rest) = some ⟨rest, Nat.lt_succ_self _⟩ :=
  if_pos rfl

theorem mark?_of_ne {m m' : Mark} (h : m' ≠ m) (o : Nat) (rest : List Spanned) :
    mark? m (⟨.mark m', o⟩ :: rest) = none :=
  if_neg h

theorem mark_self (m : Mark) (o : Nat) (rest : List Spanned) :
    mark m (⟨.mark m, o⟩ :: rest) = .ok ⟨rest, Nat.lt_succ_self _⟩ := by
  unfold mark
  rw [mark?_self]

theorem enclosed_of_inner {close : Mark} (hc : IsClosing close) (h : s.ReadsInner sp e) (o : Nat)
    (rest : List Spanned) : Yields (s.enclosed close (sp ++ ⟨.mark close, o⟩ :: rest)) e rest := by
  obtain ⟨_, he⟩ := h _ (.of_none hc.2.2 o rest)
  unfold enclosed
  rw [he]
  dsimp only [bind, Except.bind]
  rw [mark_self]
  exact ⟨_, rfl⟩

namespace ReadsItems

variable {close : Mark} (hc : IsClosing close)

theorem nil : s.ReadsItems close [] [] := by
  intro o rest
  rw [List.nil_append, items, mark?_self]
  exact ⟨_, rfl⟩

include hc

theorem one (h : s.ReadsInner sp e) (hs : Starts (sp.map Spanned.token)) :
    s.ReadsItems close sp [e] := by
  intro o rest
  obtain ⟨_, he⟩ := h _ (.of_none hc.2.2 o rest)
  rw [items, mark?_of_starts hs hc.2.1]
  dsimp only
  rw [he]
  dsimp only
  rw [mark?_of_ne hc.1, mark_self]
  exact ⟨_, rfl⟩

theorem cons {es : List Expr} (h : s.ReadsInner sp e) (hs : Starts (sp.map Spanned.token))
    (hes : s.ReadsItems close us es) (o : Nat) :
    s.ReadsItems close (sp ++ ⟨.mark .comma, o⟩ :: us) (e :: es) := by
  intro o' rest
  -- behind the comma the closing mark is looked for again
  obtain ⟨_, he⟩ := h (⟨.mark .comma, o⟩ :: (us ++ ⟨.mark close, o'⟩ :: rest)) (.of_none rfl o _)
  obtain ⟨_, hes⟩ := hes o' rest
  rw [List.append_assoc, List.cons_append, items, mark?_of_starts hs hc.2.1]
  dsimp only
  rw [he]
  dsimp only
  rw [mark?_self]
  dsimp only
  rw [hes]
  exact ⟨_, rfl⟩

end ReadsItems

/-- In front of a comma or the closing brace, the tokens are read as the entry. -/
def ReadsEntry (s : Scope) (sp : List Spanned) (entry : String × Expr) : Prop :=
  ∀ m o rest, m ≠ .colon → (Token.mark m).continues? = none →
    Yields (s.entry (sp ++ ⟨.mark m, o⟩ :: rest)) entry (⟨.mark m, o⟩ :: rest)

/-- Up to the closing brace, the tokens are read as these entries. -/
def ReadsEntries (s : Scope) (sp : List Spanned) (entries : List (String × Expr)) : Prop :=
  ∀ o rest, Yields (s.entries (sp ++ ⟨.mark .rightBrace, o⟩ :: rest)) entries rest

theorem key_of_spells {t : Token} {k : String} (h : SpellsKey t k) (o : Nat)
    (rest : List Spanned) : key (⟨t, o⟩ :: rest) = .ok (k, ⟨rest, Nat.lt_succ_self _⟩) := by
  cases h
  all_goals rfl

theorem ReadsEntry.pair {t : Token} {k : String} (hk : SpellsKey t k) (h : s.ReadsInner sp e)
    (o o' : Nat) : s.ReadsEntry (⟨t, o⟩ :: ⟨.mark .colon, o'⟩ :: sp) (k, e) := by
  intro m o'' rest _ hm
  obtain ⟨_, he⟩ := h _ (.of_none hm o'' rest)
  unfold entry
  rw [List.cons_append, List.cons_append, key_of_spells hk]
  dsimp only [bind, Except.bind]
  rw [mark?_self]
  dsimp only
  rw [he]
  exact ⟨_, rfl⟩

theorem ReadsEntry.short {t : Token} {k : String} (hk : SpellsKey t k) (o : Nat) :
    s.ReadsEntry [⟨t, o⟩] (k, .name k) := by
  intro m o' rest hm _
  unfold entry
  rw [List.singleton_append, key_of_spells hk]
  dsimp only [bind, Except.bind]
  rw [mark?_of_ne hm]
  exact ⟨_, rfl⟩

namespace ReadsEntries

variable {entry : String × Expr}

theorem nil : s.ReadsEntries [] [] := by
  intro o rest
  rw [List.nil_append, entries, mark?_self]
  exact ⟨_, rfl⟩

theorem one (h : s.ReadsEntry sp entry) (hs : Starts (sp.map Spanned.token)) :
    s.ReadsEntries sp [entry] := by
  intro o rest
  obtain ⟨_, he⟩ := h .rightBrace o rest (by decide) rfl
  rw [entries, mark?_of_starts hs rfl]
  dsimp only
  rw [he]
  dsimp only
  rw [mark?_of_ne (by decide), mark_self]
  exact ⟨_, rfl⟩

theorem cons {more : List (String × Expr)} (h : s.ReadsEntry sp entry)
    (hs : Starts (sp.map Spanned.token)) (hm : s.ReadsEntries us more) (o : Nat) :
    s.ReadsEntries (sp ++ ⟨.mark .comma, o⟩ :: us) (entry :: more) := by
  intro o' rest
  obtain ⟨_, he⟩ :=
    h .comma o (us ++ ⟨.mark .rightBrace, o'⟩ :: rest) (by decide) rfl
  obtain ⟨_, hm⟩ := hm o' rest
  rw [List.append_assoc, List.cons_append, entries, mark?_of_starts hs rfl]
  dsimp only
  rw [he]
  dsimp only
  rw [mark?_self]
  dsimp only
  rw [hm]
  exact ⟨_, rfl⟩

end ReadsEntries

theorem ReadsPrimary.of_operand {t : Token} (h : Operand t e) (o : Nat) :
    s.ReadsPrimary [⟨t, o⟩] e := by
  refine ⟨⟨_, _, rfl, ?_, unaryOp?_of_operand h⟩, fun rest => ?_⟩
  · cases h with
    | name hx => exact isNew_of_not_keyword hx
    | _ => rfl
  · cases h with
    | name hx => exact ⟨_, congrArg (fun e => Except.ok (e, _)) (ofName_of_not_keyword hx)⟩
    | _ => exact ⟨_, rfl⟩

theorem ReadsPrimary.template {chunks : List Chunk} {fragments : List Fragment}
    (h : s.fragments chunks = .ok fragments) (o : Nat) :
    s.ReadsPrimary [⟨.template chunks, o⟩] (.template fragments) := by
  refine ⟨⟨_, _, rfl, rfl, rfl⟩, fun rest => ?_⟩
  show Yields ((s.fragments chunks).map _) _ _
  rw [h]
  exact ⟨_, rfl⟩

theorem ReadsPrimary.array {es : List Expr} (h : s.ReadsItems .rightBracket sp es) (o o' : Nat) :
    s.ReadsPrimary (⟨.mark .leftBracket, o⟩ :: (sp ++ [⟨.mark .rightBracket, o'⟩]))
      (.array es) := by
  refine ⟨⟨_, _, rfl, rfl, rfl⟩, fun rest => ?_⟩
  obtain ⟨_, h⟩ := h o' rest
  rw [List.cons_append, List.append_assoc, List.singleton_append]
  show Yields ((s.items .rightBracket _).map _) _ _
  rw [h]
  exact ⟨_, rfl⟩

theorem ReadsPrimary.object {entries : List (String × Expr)} (h : s.ReadsEntries sp entries)
    (o o' : Nat) :
    s.ReadsPrimary (⟨.mark .leftBrace, o⟩ :: (sp ++ [⟨.mark .rightBrace, o'⟩]))
      (.object entries) := by
  refine ⟨⟨_, _, rfl, rfl, rfl⟩, fun rest => ?_⟩
  obtain ⟨_, h⟩ := h o' rest
  rw [List.cons_append, List.append_assoc, List.singleton_append]
  show Yields ((s.entries _).map _) _ _
  rw [h]
  exact ⟨_, rfl⟩

theorem ReadsPrimary.enclosed (h : s.ReadsInner sp e) (o o' : Nat) :
    s.ReadsPrimary (⟨.mark .leftParen, o⟩ :: (sp ++ [⟨.mark .rightParen, o'⟩])) e := by
  refine ⟨⟨_, _, rfl, rfl, rfl⟩, fun rest => ?_⟩
  obtain ⟨_, h⟩ := enclosed_of_inner isClosing_rightParen h o' rest
  rw [List.cons_append, List.append_assoc, List.singleton_append]
  show Yields ((s.enclosed .rightParen _).map _) _ _
  rw [h]
  exact ⟨_, rfl⟩

theorem ReadsChain.link (h : s.ReadsChain sp e)
    (hl : ∀ rest, ∃ hr, s.link? e (us ++ rest) = some (.ok (e', ⟨rest, hr⟩))) :
    s.ReadsChain (sp ++ us) e' := by
  intro rest e₁ more hm
  obtain ⟨_, hl⟩ := hl rest
  obtain ⟨_, hm⟩ := hm
  rw [List.append_assoc]
  refine h _ _ _ ?_
  rw [links, hl]
  dsimp only
  rw [hm]
  exact ⟨_, rfl⟩

theorem ReadsChain.member (h : s.ReadsChain sp e) (x : String) (optional : Bool)
    (hus : us.map Spanned.token = [.mark (if optional then .questionDot else .dot), .name x]) :
    s.ReadsChain (sp ++ us) (.member e x optional) := by
  refine h.link fun rest => ?_
  obtain ⟨o₁, us, rfl, h₁⟩ := exists_of_map_token hus
  obtain ⟨o₂, rfl⟩ := exists_of_map_singleton h₁
  cases optional
  all_goals exact ⟨_, rfl⟩

theorem link?_index {key : Expr} {ts : List Spanned} (optional : Bool)
    (hus : us.map Spanned.token = opening optional .leftBracket)
    (hk : Yields (s.enclosed .rightBracket ts) key rest) :
    ∃ h, s.link? e (us ++ ts) = some (.ok (.index e key optional, ⟨rest, h⟩)) := by
  obtain ⟨_, hk⟩ := hk
  cases optional with
  | false =>
    obtain ⟨o₁, rfl⟩ := exists_of_map_singleton hus
    show ∃ _, some ((s.enclosed .rightBracket ts).map _) = _
    rw [hk]
    exact ⟨_, rfl⟩
  | true =>
    obtain ⟨o₁, us, rfl, h₁⟩ := exists_of_map_token hus
    obtain ⟨o₂, rfl⟩ := exists_of_map_singleton h₁
    show ∃ _, some ((s.enclosed .rightBracket ts).map _) = _
    rw [hk]
    exact ⟨_, rfl⟩

theorem link?_call {args : List Expr} {ts : List Spanned} (optional : Bool)
    (hus : us.map Spanned.token = opening optional .leftParen)
    (ha : Yields (s.items .rightParen ts) args rest) :
    ∃ h, s.link? e (us ++ ts) = some (.ok (.call e args optional, ⟨rest, h⟩)) := by
  obtain ⟨_, ha⟩ := ha
  cases optional with
  | false =>
    obtain ⟨o₁, rfl⟩ := exists_of_map_singleton hus
    show ∃ _, some ((s.items .rightParen ts).map _) = _
    rw [ha]
    exact ⟨_, rfl⟩
  | true =>
    obtain ⟨o₁, us, rfl, h₁⟩ := exists_of_map_token hus
    obtain ⟨o₂, rfl⟩ := exists_of_map_singleton h₁
    show ∃ _, some ((s.items .rightParen ts).map _) = _
    rw [ha]
    exact ⟨_, rfl⟩

theorem ReadsChain.index {key : Expr} (h : s.ReadsChain sp e) (optional : Bool)
    (hus : us.map Spanned.token = opening optional .leftBracket) (hk : s.ReadsInner more key)
    (o : Nat) :
    s.ReadsChain (sp ++ (us ++ (more ++ [⟨.mark .rightBracket, o⟩])))
      (.index e key optional) := by
  refine h.link fun rest => ?_
  rw [List.append_assoc, List.append_assoc, List.singleton_append]
  exact link?_index optional hus
    (enclosed_of_inner isClosing_rightBracket hk o rest)

theorem ReadsChain.call {args : List Expr} (h : s.ReadsChain sp e) (optional : Bool)
    (hus : us.map Spanned.token = opening optional .leftParen)
    (ha : s.ReadsItems .rightParen more args) (o : Nat) :
    s.ReadsChain (sp ++ (us ++ (more ++ [⟨.mark .rightParen, o⟩])))
      (.call e args optional) := by
  refine h.link fun rest => ?_
  rw [List.append_assoc, List.append_assoc, List.singleton_append]
  exact link?_call optional hus (ha o rest)

theorem unary_new (o : Nat) (ts : List Spanned) :
    s.unary (⟨.name "new", o⟩ :: ts) = s.chain (⟨.name "new", o⟩ :: ts) :=
  unary_eq_chain rfl ts

theorem head_new {args : List Expr} {ts : List Spanned} (hc : Yields (s.primary ts) e rest)
    (ha : ∃ h, s.arguments? rest = .ok (args, ⟨more, h⟩)) (o : Nat) :
    Yields (s.head (⟨.name "new", o⟩ :: ts)) (.construct e args) more := by
  obtain ⟨_, hc⟩ := hc
  obtain ⟨_, ha⟩ := ha
  show Yields (s.primary ts >>= _) _ _
  rw [hc]
  dsimp only [bind, Except.bind]
  rw [ha]
  exact ⟨_, rfl⟩

theorem ReadsPrimary.construct {args : List Expr} (h : s.ReadsPrimary sp e)
    (hargs : s.ReadsItems .rightParen us args) (o o' o'' : Nat) :
    s.ReadsChain
      (⟨.name "new", o⟩ :: (sp ++ (⟨.mark .leftParen, o'⟩ :: (us ++ [⟨.mark .rightParen, o''⟩]))))
      (.construct e args) := by
  intro rest e' more hl
  have ha : ∃ h, s.arguments? (⟨.mark .leftParen, o'⟩ :: (us ++ ⟨.mark .rightParen, o''⟩ :: rest)) =
      .ok (args, ⟨rest, h⟩) := by
    obtain ⟨_, hargs⟩ := hargs o'' rest
    unfold arguments?
    rw [mark?_self]
    dsimp only
    rw [hargs]
    exact ⟨_, rfl⟩
  rw [List.cons_append, List.append_assoc, List.cons_append, List.append_assoc,
    List.singleton_append, unary_new]
  exact chain_of_head (head_new (h.2 _) ha o) hl

/-- A construction without arguments, in front of anything but a link. -/
theorem ReadsPrimary.new (h : s.ReadsPrimary sp e) (o : Nat) :
    s.ReadsUnary (⟨.name "new", o⟩ :: sp) (.construct e []) := by
  intro rest hr
  have hr : Stops 10 rest := hr.mono (by decide)
  have ha : ∃ h, s.arguments? rest = .ok ([], ⟨rest, h⟩) := by
    unfold arguments?
    rw [hr.mark?_eq_none (Nat.le_refl 10) rfl]
    exact ⟨_, rfl⟩
  rw [List.cons_append, unary_new]
  exact chain_of_head (head_new (h.2 rest) ha o) (links_of_stops hr)

theorem unaryOp?_token (op : UnaryOp) : unaryOp? op.token = some op := by
  cases op
  all_goals rfl

theorem ReadsUnary.prefixed {op : UnaryOp}
    (h : ∀ rest, Stops 9 rest → Yields (s.nested .unary (sp ++ rest)) e rest) (o : Nat) :
    s.ReadsUnary (⟨op.token, o⟩ :: sp) (.unary op e) := by
  intro rest hr
  obtain ⟨_, he⟩ := h rest hr
  unfold unary
  rw [List.cons_append]
  dsimp only
  rw [unaryOp?_token]
  dsimp only
  rw [he]
  exact ⟨_, rfl⟩

theorem ReadsUnary.power (hb : s.ReadsUnary sp e)
    (he : ∀ rest, Stops 8 rest → Yields (s.nested .power (us ++ rest)) e' rest) (o : Nat) :
    s.ReadsOperand 0 (sp ++ ⟨.mark .starStar, o⟩ :: us) (.binary .pow e e') := by
  intro rest hr
  obtain ⟨_, hb⟩ := hb (⟨.mark .starStar, o⟩ :: (us ++ rest)) (.cons (k := 8) rfl (by decide) o _)
  obtain ⟨_, he⟩ := he rest hr
  unfold operators Scope.power
  rw [List.append_assoc, List.cons_append, hb]
  dsimp only [bind, Except.bind]
  rw [mark?_self]
  dsimp only
  rw [he]
  exact ⟨_, rfl⟩

theorem joint?_mark {j : Joint} (hj : j ≠ .binary .pow) (o : Nat) (rest : List Spanned) :
    joint? j.level (⟨.mark j.mark, o⟩ :: rest) = some (j, ⟨rest, Nat.lt_succ_self _⟩) := by
  show ((Joint.ofMark? j.mark).filter _).map _ = _
  rw [Joint.ofMark?_mark hj, Option.filter_some_pos (by simp)]
  rfl

/-- An operator joins its right operand to what stands on its left. -/
theorem ReadsLeft.joint {j : Joint} (hj : j ≠ .binary .pow) (hl : j.level ≤ 6)
    (hleft : s.ReadsLeft (6 - j.level) sp e) (hright : s.ReadsOperand (6 - j.level) us e')
    (o : Nat) :
    s.ReadsLeft (6 - j.level) (sp ++ ⟨.mark j.mark, o⟩ :: us) (j.apply e e') := by
  intro rest e₁ more hr hm
  have hlevel : Joint.levelCount - (6 - j.level + 1) = j.level := by
    unfold Joint.levelCount
    omega
  rw [hlevel] at hm
  rw [List.append_assoc, List.cons_append]
  -- the loop of the level takes up the operator, its operand, and then the rest
  refine hleft _ _ _ (.cons (Joint.continues?_mark hj) (by omega) o _) ?_
  obtain ⟨_, hright⟩ := hright rest hr
  obtain ⟨_, hm⟩ := hm
  rw [hlevel, joined, joint?_mark hj]
  dsimp only
  rw [hright]
  dsimp only
  rw [hm]
  exact ⟨_, rfl⟩

theorem ReadsAt.joint {j : Joint} (hj : j ≠ .binary .pow) (hleft : s.ReadsAt (j.level + 1) sp e)
    (hright : s.ReadsAt (j.level + 2) us e') (o : Nat) :
    s.ReadsAt (j.level + 1) (sp ++ ⟨.mark j.mark, o⟩ :: us) (j.apply e e') := by
  have hl := Joint.level_le_six hj
  rw [readsAt_succ s hl] at hleft ⊢
  exact hleft.joint hj hl (hright.operand hl) o

theorem ReadsOperand.conditional {test consequent alternate : Expr} {vs : List Spanned}
    (ht : s.ReadsOperand 7 sp test) (ha : NoArrowHead (sp.map Spanned.token))
    (hc : s.ReadsInner us consequent) (he : s.ReadsInner vs alternate) (o o' : Nat) :
    s.ReadsExpression (sp ++ ⟨.mark .question, o⟩ :: (us ++ ⟨.mark .colon, o'⟩ :: vs))
      (.conditional test consequent alternate) := by
  intro rest hr
  have harrow : ∀ u ∈ (⟨.mark .question, o⟩ :: (us ++ ⟨.mark .colon, o'⟩ :: (vs ++ rest))).head?,
      Token.isArrow (Spanned.token u) = false := by
    intro u hu
    obtain rfl := Option.some.inj hu
    rfl
  obtain ⟨_, ht⟩ := ht (⟨.mark .question, o⟩ :: (us ++ ⟨.mark .colon, o'⟩ :: (vs ++ rest)))
    (.cons (k := 0) rfl (by decide) o _)
  obtain ⟨_, hc⟩ := hc _ (.of_none (t := .mark .colon) rfl o' (vs ++ rest))
  obtain ⟨_, he⟩ := he rest hr
  rw [List.append_assoc, List.cons_append, List.append_assoc, List.cons_append]
  unfold Scope.expression
  rw [ha sp _ rfl harrow]
  dsimp only [bind, Except.bind, Joint.levelCount]
  -- the test ends before the question mark, the consequent before the colon
  rw [ht]
  dsimp only
  rw [mark?_self]
  dsimp only
  rw [hc]
  dsimp only
  rw [mark_self]
  dsimp only
  rw [he]
  exact ⟨_, rfl⟩

theorem params?_names (params : List String)
    (hsp : sp.map Spanned.token = namesBetweenCommas params) (rest : List Spanned) :
    ∃ h, params? (sp ++ rest) = some (params, ⟨rest, h⟩) := by
  induction params generalizing sp with
  | nil =>
    obtain ⟨o, rfl⟩ := exists_of_map_singleton hsp
    exact ⟨_, rfl⟩
  | cons x params ih =>
    cases params with
    | nil =>
      obtain ⟨o, sp, rfl, h₁⟩ := exists_of_map_token hsp
      obtain ⟨o', rfl⟩ := exists_of_map_singleton h₁
      exact ⟨_, rfl⟩
    | cons y params =>
      obtain ⟨o, sp, rfl, h₁⟩ := exists_of_map_token hsp
      obtain ⟨o', sp, rfl, h₂⟩ := exists_of_map_token h₁
      obtain ⟨_, h⟩ := ih h₂
      show ∃ _, (params? (sp ++ rest)).map _ = _
      rw [h]
      exact ⟨_, rfl⟩

theorem arrowHead?_params (params : List String)
    (hsp : sp.map Spanned.token = paramTokens params) (o : Nat) (rest : List Spanned) :
    ∃ h, arrowHead? (sp ++ ⟨.mark .arrow, o⟩ :: rest) = some (params, ⟨rest, h⟩) := by
  unfold paramTokens at hsp
  split at hsp
  · obtain ⟨o', rfl⟩ := exists_of_map_singleton hsp
    exact ⟨_, rfl⟩
  · obtain ⟨o', sp, rfl, h₁⟩ := exists_of_map_token hsp
    obtain ⟨_, h⟩ := params?_names params h₁ (⟨.mark .arrow, o⟩ :: rest)
    rw [List.cons_append]
    unfold arrowHead?
    dsimp only
    rw [h]
    dsimp only
    rw [mark?_self]
    exact ⟨_, rfl⟩

theorem ReadsInner.arrow {params : List String} (hbody : s.ReadsInner us e)
    (hsp : sp.map Spanned.token = paramTokens params) (o : Nat) :
    s.ReadsExpression (sp ++ ⟨.mark .arrow, o⟩ :: us) (.arrow params e) := by
  intro rest hr
  obtain ⟨_, ha⟩ := arrowHead?_params params hsp o (us ++ rest)
  obtain ⟨_, hb⟩ := hbody rest hr
  unfold Scope.expression
  rw [List.append_assoc, List.cons_append, ha]
  dsimp only
  rw [hb]
  exact ⟨_, rfl⟩

end Scope

end Parser

end Workflow
