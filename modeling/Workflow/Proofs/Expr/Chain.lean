import Workflow.Proofs.Expr.Nesting
import Workflow.Proofs.Expr.Tokens

/-! How plain references are read as expressions: as chains of members. -/
namespace Workflow

/-- The chain that goes on from `e` with a hop. -/
def Hop.link (e : Expr) : Hop → Expr
  | .name s _ => .member e (String.ofList s) false
  | .key s _ => .index e (.literal (.string (String.ofList s))) false
  | .index n => .index e (.literal (.number (Number.ofDecimal n 0))) false

def Root.expr : Root → Expr
  | .json => .name "$json"
  | .vars => .name "$vars"
  | .workflow => .name "$workflow"
  | .execution => .name "$execution"
  | .node name _ => .index (.name "$node") (.literal (.string (String.ofList name))) false

namespace Parser

/-- A token behind which no operand goes on: the end, or a closing bracket. -/
def Closes (t : Token) : Prop :=
  t = .stop ∨ t = .mark .rightBracket

/-- The names that stand for something else than a variable. -/
def keywords : List String :=
  ["true", "false", "null", "undefined", "new", "typeof"]

/-- A token that is an operand on its own. -/
inductive Operand : Token → Expr → Prop
  | number (x : Float) : Operand (.number x) (.literal (.number x))
  | string (s : String) : Operand (.string s) (.literal (.string s))
  | name {x : String} : x ∉ keywords → Operand (.name x) (.name x)

namespace Scope

variable {s : Scope} {e : Expr} {t : Spanned} {ts : List Spanned}

theorem mark?_of_closes (h : Closes t.token) {m : Mark} (hm : m ≠ .rightBracket) :
    mark? m (t :: ts) = none := by
  obtain ⟨token, o⟩ := t
  rcases h with rfl | rfl
  · rfl
  · exact if_neg fun he => hm he.symm

theorem exists_of_map_token {t : Token} {after : List Token}
    (h : ts.map Spanned.token = t :: after) :
    ∃ o rest, ts = ⟨t, o⟩ :: rest ∧ rest.map Spanned.token = after := by
  obtain ⟨⟨_, o⟩, rest, rfl, rfl, hr⟩ := List.map_eq_cons_iff.1 h
  exact ⟨o, rest, rfl, hr⟩

theorem exists_of_map_singleton {t : Token} (h : ts.map Spanned.token = [t]) :
    ∃ o, ts = [⟨t, o⟩] := by
  obtain ⟨o, rest, rfl, hr⟩ := exists_of_map_token h
  obtain rfl := List.map_eq_nil_iff.1 hr
  exact ⟨o, rfl⟩

theorem link?_of_closes (h : Closes t.token) : link? s e (t :: ts) = none := by
  obtain ⟨token, o⟩ := t
  rcases h with rfl | rfl
  · rfl
  · rfl

theorem links_of_closes (h : Closes t.token) :
    links s e (t :: ts) = .ok (e, ⟨t :: ts, Nat.le_refl _⟩) := by
  rw [links, link?_of_closes h]

theorem joined_of_closes (h : Closes t.token) (operand : (ts : List Spanned) → Parsed Expr ts)
    (level : Nat) : joined operand level e (t :: ts) = .ok (e, ⟨t :: ts, Nat.le_refl _⟩) := by
  have hj : joint? level (t :: ts) = none := by
    obtain ⟨token, o⟩ := t
    rcases h with rfl | rfl
    · rfl
    · rfl
  rw [joined, hj]

theorem unaryOp?_of_operand (h : Operand t.token e) : unaryOp? t.token = none := by
  generalize t.token = token at h ⊢
  cases h with
  | number x => rfl
  | string k => rfl
  | name hx =>
    unfold unaryOp?
    split
    · contradiction
    · contradiction
    · contradiction
    · rename_i he
      rw [Token.name.inj he] at hx
      exact absurd hx (by decide)
    · rfl

theorem ofName_of_not_keyword {x : String} (h : x ∉ keywords) : ofName x = .name x := by
  simp only [keywords, List.mem_cons, List.not_mem_nil, or_false, not_or] at h
  obtain ⟨ht, hf, hn, hu, -, -⟩ := h
  unfold ofName
  split
  · contradiction
  · contradiction
  · contradiction
  · contradiction
  · rfl

theorem isNew_of_not_keyword {x : String} (h : x ∉ keywords) : isNew (.name x) = false := by
  unfold isNew
  split
  · rename_i he
    rw [Token.name.inj he] at h
    exact absurd h (by decide)
  · rfl

theorem head_of_operand (h : Operand t.token e) :
    head s (t :: ts) = .ok (e, ⟨ts, Nat.lt_succ_self _⟩) := by
  obtain ⟨token, o⟩ := t
  cases h with
  | number x => rfl
  | string k => rfl
  | @name x hx =>
    have hp : primary s (⟨.name x, o⟩ :: ts) = .ok (ofName x, ⟨ts, Nat.lt_succ_self _⟩) := rfl
    unfold head
    dsimp only
    rw [isNew_of_not_keyword hx, hp, ofName_of_not_keyword hx]
    rfl

theorem chain_of_links {e' : Expr} {r : { rest : List Spanned // rest.length ≤ ts.length }}
    (h : Operand t.token e) (hl : links s e ts = .ok (e', r)) :
    chain s (t :: ts) = .ok (e', ⟨r.1, Nat.lt_succ_of_le r.2⟩) := by
  unfold chain
  rw [head_of_operand h]
  show (links s e ts >>= _) = _
  rw [hl]
  rfl

theorem arrowHead?_of_operand (h : Operand t.token e) (ha : ∀ u ∈ ts.head?, u.token ≠ .mark .arrow) :
    arrowHead? (t :: ts) = none := by
  obtain ⟨token, o⟩ := t
  cases h with
  | number x => rfl
  | string k => rfl
  | name hx =>
    cases ts with
    | nil => rfl
    | cons u ts =>
      have hu := ha u rfl
      obtain ⟨token, o⟩ := u
      cases token with
      | mark m =>
        cases m with
        | arrow => exact absurd rfl hu
        | _ => rfl
      | _ => rfl

section

variable {e₀ : Expr} {u : Spanned} {rest : List Spanned}
  {h : (u :: rest).length < (t :: ts).length} (ht : Operand t.token e₀) (hu : Closes u.token)
  (hc : chain s (t :: ts) = .ok (e, ⟨u :: rest, h⟩))
include ht hu hc

theorem power_of_chain : power s (t :: ts) = .ok (e, ⟨u :: rest, h⟩) := by
  have hn : unary s (t :: ts) = chain s (t :: ts) := by
    unfold unary
    dsimp only
    rw [unaryOp?_of_operand ht]
  unfold power
  rw [hn, hc]
  dsimp only [bind, Except.bind]
  rw [mark?_of_closes hu (by decide)]
  rfl

theorem operators_of_chain (count : Nat) :
    operators s count (t :: ts) = .ok (e, ⟨u :: rest, h⟩) := by
  induction count with
  | zero => exact power_of_chain ht hu hc
  | succ count ih =>
    unfold operators
    rw [ih]
    show (joined _ _ e (u :: rest) >>= _) = _
    rw [joined_of_closes hu]
    rfl

/-- A chain in front of a token behind which nothing goes on is a whole expression. -/
theorem expression_of_chain (ha : ∀ u ∈ ts.head?, u.token ≠ .mark .arrow) :
    expression s (t :: ts) = .ok (e, ⟨u :: rest, h⟩) := by
  unfold expression
  rw [arrowHead?_of_operand ht ha, operators_of_chain ht hu hc]
  dsimp only [bind, Except.bind]
  rw [mark?_of_closes hu (by decide)]
  rfl

end

/-- The inner reader reads a number or a text in front of a closing bracket. -/
def ReadsLiterals (s : Scope) : Prop :=
  ∀ (t u : Spanned) (rest : List Spanned) (value : Literal), Operand t.token (.literal value) →
    u.token = .mark .rightBracket →
      s.nested .expression (t :: u :: rest) = .ok (.literal value, ⟨u :: rest, Nat.lt_succ_self _⟩)

/-- An index by a literal, behind `e`. -/
theorem link?_inBrackets (hs : ReadsLiterals s) {token : Token} {value : Literal}
    (hv : Operand token (.literal value)) {after : List Token}
    (ht : ts.map Spanned.token = inBrackets token ++ after) :
    ∃ rest h, link? s e ts = some (.ok (.index e (.literal value) false, ⟨rest, h⟩)) ∧
      rest.map Spanned.token = after := by
  obtain ⟨o, _, rfl, h₁⟩ := exists_of_map_token ht
  obtain ⟨o₁, _, rfl, h₂⟩ := exists_of_map_token h₁
  obtain ⟨o₂, rest, rfl, h₃⟩ := exists_of_map_token h₂
  have he : enclosed s .rightBracket (⟨token, o₁⟩ :: ⟨.mark .rightBracket, o₂⟩ :: rest) =
      .ok (.literal value, ⟨rest, Nat.lt_succ_of_lt (Nat.lt_succ_self _)⟩) := by
    unfold enclosed
    rw [hs ⟨token, o₁⟩ ⟨.mark .rightBracket, o₂⟩ rest value hv rfl]
    rfl
  refine ⟨rest, Nat.lt_succ_of_lt (Nat.lt_succ_of_lt (Nat.lt_succ_self _)), ?_, h₃⟩
  show some ((enclosed s .rightBracket _).map _) = _
  rw [he]
  rfl

theorem link?_hop (hs : ReadsLiterals s) (hop : Hop) {after : List Token}
    (ht : ts.map Spanned.token = hop.tokens ++ after) :
    ∃ rest h, link? s e ts = some (.ok (hop.link e, ⟨rest, h⟩)) ∧
      rest.map Spanned.token = after := by
  cases hop with
  | name k hk =>
    obtain ⟨o, _, rfl, h₁⟩ := exists_of_map_token ht
    obtain ⟨o₁, rest, rfl, h₂⟩ := exists_of_map_token h₁
    exact ⟨rest, Nat.lt_succ_of_lt (Nat.lt_succ_self _), rfl, h₂⟩
  | key k hk => exact link?_inBrackets hs (.string _) ht
  | index n => exact link?_inBrackets hs (.number _) ht

/-- Hops are read as links, up to the end of the text. -/
theorem links_hops (hs : ReadsLiterals s) (hops : List Hop)
    (ht : ts.map Spanned.token = hops.flatMap Hop.tokens ++ [.stop]) :
    ∃ o h, links s e ts = .ok (hops.foldl Hop.link e, ⟨[⟨.stop, o⟩], h⟩) := by
  induction hops generalizing e ts with
  | nil =>
    obtain ⟨o, rest, rfl, hr⟩ := exists_of_map_token ht
    obtain rfl := List.map_eq_nil_iff.1 hr
    exact ⟨o, Nat.le_refl _, links_of_closes (Or.inl rfl)⟩
  | cons hop hops ih =>
    rw [List.flatMap_cons, List.append_assoc] at ht
    obtain ⟨rest, hr, hl, ht⟩ := link?_hop (e := e) hs hop ht
    obtain ⟨o, ho, he⟩ := ih (e := hop.link e) ht
    refine ⟨o, Nat.le_trans ho (Nat.le_of_lt hr), ?_⟩
    rw [links, hl]
    dsimp only
    rw [he]
    rfl

end Scope

theorem readsLiterals_nested (room limit : Nat) :
    Scope.ReadsLiterals
      { room := room + 1, limit, inner := fun limit goal ts => nested (room + 1) limit goal ts } := by
  intro t u rest value ht hu
  refine Scope.expression_of_chain ht (Or.inr hu)
    (Scope.chain_of_links ht (Scope.links_of_closes (Or.inr hu))) fun v hv => ?_
  obtain rfl : u = v := Option.some.inj hv
  rw [hu]
  exact fun he => absurd (Token.mark.inj he) (by decide)

/-- No hop begins with an arrow. -/
theorem head_tokens_ne_arrow {hops : List Hop} {ts : List Spanned}
    (ht : ts.map Spanned.token = hops.flatMap Hop.tokens ++ [.stop]) :
    ∀ u ∈ ts.head?, u.token ≠ .mark .arrow := by
  intro u hu
  have hm : (hops.flatMap Hop.tokens ++ [Token.stop]).head? = some u.token := by
    rw [← ht, List.head?_map, hu]
    rfl
  intro he
  rw [he] at hm
  cases hops with
  | nil => exact Token.noConfusion (Option.some.inj hm)
  | cons hop hops =>
    cases hop with
    | name s h => exact Mark.noConfusion (Token.mark.inj (Option.some.inj hm))
    | key s h => exact Mark.noConfusion (Token.mark.inj (Option.some.inj hm))
    | index n => exact Mark.noConfusion (Token.mark.inj (Option.some.inj hm))

theorem expression_of_links {s : Scope} {x : String} (hx : x ∉ keywords) {e : Expr}
    {ts : List Spanned} {o o' : Nat} {h : [(⟨.stop, o'⟩ : Spanned)].length ≤ ts.length}
    (ha : ∀ u ∈ ts.head?, u.token ≠ .mark .arrow)
    (hl : s.links (.name x) ts = .ok (e, ⟨[⟨.stop, o'⟩], h⟩)) :
    s.expression (⟨.name x, o⟩ :: ts) = .ok (e, ⟨[⟨.stop, o'⟩], Nat.lt_succ_of_le h⟩) :=
  Scope.expression_of_chain (t := ⟨.name x, o⟩) (.name hx) (Or.inl rfl)
    (Scope.chain_of_links (.name hx) hl) ha

/-- The tokens of a root and of hops behind it are read as a chain. -/
theorem expression_root {s : Scope} (hs : s.ReadsLiterals) (root : Root) {hops : List Hop}
    {ts : List Spanned}
    (ht : ts.map Spanned.token = root.tokens ++ (hops.flatMap Hop.tokens ++ [.stop])) :
    ∃ o h, s.expression ts = .ok (hops.foldl Hop.link root.expr, ⟨[⟨.stop, o⟩], h⟩) := by
  have hname {x : String} (hx : x ∉ keywords)
      (ht : ts.map Spanned.token = .name x :: (hops.flatMap Hop.tokens ++ [.stop])) :
      ∃ o h, s.expression ts = .ok (hops.foldl Hop.link (.name x), ⟨[⟨.stop, o⟩], h⟩) := by
    obtain ⟨o, rest, rfl, hr⟩ := Scope.exists_of_map_token ht
    obtain ⟨o', h, hl⟩ := Scope.links_hops hs hops hr
    exact ⟨o', _, expression_of_links hx (head_tokens_ne_arrow hr) hl⟩
  cases root with
  | json => exact hname (by decide) ht
  | vars => exact hname (by decide) ht
  | workflow => exact hname (by decide) ht
  | execution => exact hname (by decide) ht
  | node name hn =>
    -- the name of the node is a link of its own
    obtain ⟨o, rest, rfl, hr⟩ := Scope.exists_of_map_token ht
    obtain ⟨more, hm, hlink, hmore⟩ := Scope.link?_inBrackets hs (e := .name "$node") (.string _) hr
    obtain ⟨o', h, hl⟩ := Scope.links_hops hs hops hmore
    have hlinks : s.links (.name "$node") rest =
        .ok (hops.foldl Hop.link (Root.node name hn).expr,
          ⟨[⟨.stop, o'⟩], Nat.le_trans h (Nat.le_of_lt hm)⟩) := by
      rw [Scope.links, hlink]
      dsimp only
      rw [hl]
      rfl
    refine ⟨o', _, expression_of_links (by decide) ?_ hlinks⟩
    obtain ⟨o₁, _, rfl, -⟩ := Scope.exists_of_map_token hr
    rintro u hu
    obtain rfl := Option.some.inj hu
    exact fun he => absurd (Token.mark.inj he) (by decide)

/-- With two levels to open, a plain reference is read as a chain. -/
theorem parse_plain (p : PlainReference) (room : Nat) :
    Expr.parse (room + 2) (String.ofList p.text) = .ok (p.hops.foldl Hop.link p.root.expr) := by
  obtain ⟨ts, hts, ht⟩ := p.tokenize_text
  obtain ⟨o, h, he⟩ := expression_root (readsLiterals_nested room (room + 2)) p.root ht
  unfold Expr.parse Scope.whole
  rw [hts]
  show (nested (room + 2) (room + 2) .expression ts >>= _) = _
  rw [show nested (room + 2) (room + 2) .expression ts = _ from he]
  rfl

end Parser

end Workflow
