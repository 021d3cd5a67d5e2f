import Workflow.Proofs.Expr.Chain

/-! The tokens that spell an expression, with no more parentheses than the levels of precedence
call for. -/
namespace Workflow

/-- How tightly an expression holds together: functions and conditionals least, then the operators
that join from the left, powers, prefix operators, links of chains, and what stands on its own. -/
def Expr.level : Expr → Nat
  | .arrow .. | .conditional .. => 0
  | .logical op _ _ => (Joint.logical op).level + 1
  | .binary op _ _ => (Joint.binary op).level + 1
  | .unary .. => 9
  | .member .. | .index .. | .call .. | .construct .. => 10
  | .literal _ | .template _ | .name _ | .array _ | .object _ => 11

def Joint.mark : Joint → Mark
  | .logical .nullish => .questionQuestion
  | .logical .or => .orOr
  | .logical .and => .andAnd
  | .binary .eq => .eqEq
  | .binary .notEq => .notEq
  | .binary .strictEq => .eqEqEq
  | .binary .strictNotEq => .notEqEq
  | .binary .lt => .lt
  | .binary .le => .le
  | .binary .gt => .gt
  | .binary .ge => .ge
  | .binary .add => .plus
  | .binary .sub => .minus
  | .binary .mul => .star
  | .binary .div => .slash
  | .binary .rem => .percent
  | .binary .pow => .starStar

def UnaryOp.token : UnaryOp → Token
  | .not => .mark .bang
  | .neg => .mark .minus
  | .plus => .mark .plus
  | .typeOf => .name "typeof"

/-- The tokens that open an index or the arguments of a call. -/
def opening (optional : Bool) (m : Mark) : List Token :=
  if optional then [.mark .questionDot, .mark m] else [.mark m]

/-- Names up to a closing parenthesis. -/
def namesBetweenCommas : List String → List Token
  | [] => [.mark .rightParen]
  | [x] => [.name x, .mark .rightParen]
  | x :: xs => .name x :: .mark .comma :: namesBetweenCommas xs

/-- The parameters of a function; a single one stands without parentheses. -/
def paramTokens : List String → List Token
  | [x] => [.name x]
  | xs => .mark .leftParen :: namesBetweenCommas xs

/-- A token that spells the key of an entry. -/
inductive SpellsKey : Token → String → Prop
  | name (key : String) : SpellsKey (.name key) key
  | string (key : String) : SpellsKey (.string key) key
  | number (x : Float) : SpellsKey (.number x) (Number.display x)

mutual

/-- The tokens spell the expression with no parentheses around it, and open so many levels of
nesting inside. -/
inductive Spells : Expr → List Token → Nat → Prop
  | number (x : Float) : Spells (.literal (.number x)) [.number x] 0
  | string (s : String) : Spells (.literal (.string s)) [.string s] 0
  | true : Spells (.literal (.bool true)) [.name "true"] 0
  | false : Spells (.literal (.bool false)) [.name "false"] 0
  | null : Spells (.literal .null) [.name "null"] 0
  | undefined : Spells (.literal .undefined) [.name "undefined"] 0
  | name {x : String} : x ∉ Parser.keywords → Spells (.name x) [.name x] 0
  | template {fragments : List Fragment} {chunks : List Chunk} {n : Nat} :
    SpellsFragments fragments chunks n → Spells (.template fragments) [.template chunks] n
  | array {items : List Expr} {ts : List Token} {n : Nat} :
    SpellsItems items ts n →
      Spells (.array items) (.mark .leftBracket :: (ts ++ [.mark .rightBracket])) n
  | object {entries : List (String × Expr)} {ts : List Token} {n : Nat} :
    SpellsEntries entries ts n →
      Spells (.object entries) (.mark .leftBrace :: (ts ++ [.mark .rightBrace])) n
  | member {e : Expr} {ts : List Token} {n : Nat} (x : String) (optional : Bool) :
    SpellsAt 10 e ts n →
      Spells (.member e x optional)
        (ts ++ [.mark (if optional then .questionDot else .dot), .name x]) n
  | index {e key : Expr} {ts us : List Token} {n m : Nat} (optional : Bool) :
    SpellsAt 10 e ts n → SpellsAt 0 key us m →
      Spells (.index e key optional)
        (ts ++ (opening optional .leftBracket ++ (us ++ [.mark .rightBracket]))) (max n (m + 1))
  | call {e : Expr} {args : List Expr} {ts us : List Token} {n m : Nat} (optional : Bool) :
    SpellsAt 10 e ts n → SpellsItems args us m →
      Spells (.call e args optional)
        (ts ++ (opening optional .leftParen ++ (us ++ [.mark .rightParen]))) (max n m)
  | construct {e : Expr} {args : List Expr} {ts us : List Token} {n m : Nat} :
    SpellsAt 11 e ts n → SpellsItems args us m →
      Spells (.construct e args)
        (.name "new" :: (ts ++ (.mark .leftParen :: (us ++ [.mark .rightParen])))) (max n m)
  | unary {e : Expr} {ts : List Token} {n : Nat} (op : UnaryOp) :
    SpellsAt 9 e ts n → Spells (.unary op e) (op.token :: ts) (n + 1)
  | power {base exponent : Expr} {ts us : List Token} {n m : Nat} :
    SpellsAt 9 base ts n → SpellsAt 8 exponent us m →
      Spells (.binary .pow base exponent) (ts ++ .mark .starStar :: us) (max n (m + 1))
  | binary {op : BinaryOp} {left right : Expr} {ts us : List Token} {n m : Nat} :
    op ≠ .pow → SpellsAt ((Joint.binary op).level + 1) left ts n →
      SpellsAt ((Joint.binary op).level + 2) right us m →
        Spells (.binary op left right) (ts ++ .mark (Joint.binary op).mark :: us) (max n m)
  | logical {op : LogicalOp} {left right : Expr} {ts us : List Token} {n m : Nat} :
    SpellsAt ((Joint.logical op).level + 1) left ts n →
      SpellsAt ((Joint.logical op).level + 2) right us m →
        Spells (.logical op left right) (ts ++ .mark (Joint.logical op).mark :: us) (max n m)
  | conditional {test consequent alternate : Expr} {ts us vs : List Token} {n m k : Nat} :
    SpellsAt 1 test ts n → SpellsAt 0 consequent us m → SpellsAt 0 alternate vs k →
      Spells (.conditional test consequent alternate)
        (ts ++ .mark .question :: (us ++ .mark .colon :: vs)) (max n (max (m + 1) (k + 1)))
  | arrow {body : Expr} {ts : List Token} {n : Nat} (params : List String) :
    SpellsAt 0 body ts n →
      Spells (.arrow params body) (paramTokens params ++ .mark .arrow :: ts) (n + 1)

/-- The tokens spell the expression where one that holds together as tightly as the level is called
for: what holds together less stands in parentheses. A construction without arguments needs no
parentheses behind it unless a link follows. -/
inductive SpellsAt : Nat → Expr → List Token → Nat → Prop
  | bare {level : Nat} {e : Expr} {ts : List Token} {n : Nat} :
    level ≤ e.level → Spells e ts n → SpellsAt level e ts n
  | enclosed {level : Nat} {e : Expr} {ts : List Token} {n : Nat} :
    e.level < level → Spells e ts n →
      SpellsAt level e (.mark .leftParen :: (ts ++ [.mark .rightParen])) (n + 1)
  | new {level : Nat} {e : Expr} {ts : List Token} {n : Nat} :
    level ≤ 9 → SpellsAt 11 e ts n → SpellsAt level (.construct e []) (.name "new" :: ts) n

/-- Expressions between commas. -/
inductive SpellsItems : List Expr → List Token → Nat → Prop
  | nil : SpellsItems [] [] 0
  | one {e : Expr} {ts : List Token} {n : Nat} : SpellsAt 0 e ts n → SpellsItems [e] ts (n + 1)
  | cons {e e' : Expr} {rest : List Expr} {ts us : List Token} {n m : Nat} :
    SpellsAt 0 e ts n → SpellsItems (e' :: rest) us m →
      SpellsItems (e :: e' :: rest) (ts ++ .mark .comma :: us) (max (n + 1) m)

/-- A key with its value, or alone if the value is the name that it spells. -/
inductive SpellsEntry : String × Expr → List Token → Nat → Prop
  | pair {t : Token} {key : String} {e : Expr} {ts : List Token} {n : Nat} :
    SpellsKey t key → SpellsAt 0 e ts n → SpellsEntry (key, e) (t :: .mark .colon :: ts) (n + 1)
  | short {t : Token} {key : String} : SpellsKey t key → SpellsEntry (key, .name key) [t] 0

/-- Entries between commas. -/
inductive SpellsEntries : List (String × Expr) → List Token → Nat → Prop
  | nil : SpellsEntries [] [] 0
  | one {entry : String × Expr} {ts : List Token} {n : Nat} :
    SpellsEntry entry ts n → SpellsEntries [entry] ts n
  | cons {entry entry' : String × Expr} {rest : List (String × Expr)} {ts us : List Token}
    {n m : Nat} :
    SpellsEntry entry ts n → SpellsEntries (entry' :: rest) us m →
      SpellsEntries (entry :: entry' :: rest) (ts ++ .mark .comma :: us) (max n m)

/-- A hole is spelled by any text that is read as its expression, within so many levels. -/
inductive SpellsFragments : List Fragment → List Chunk → Nat → Prop
  | nil : SpellsFragments [] [] 0
  | text {rest : List Fragment} {chunks : List Chunk} {n : Nat} (s : String) :
    SpellsFragments rest chunks n → SpellsFragments (.text s :: rest) (.text s :: chunks) n
  | hole {e : Expr} {source : String} {limit : Nat} {rest : List Fragment} {chunks : List Chunk}
    {n : Nat} :
    Expr.parse limit source = .ok e → SpellsFragments rest chunks n →
      SpellsFragments (.hole e :: rest) (.source source :: chunks) (max limit n)

end

/-- What stands in a hole is read from some text. -/
def Fragment.Writable : Fragment → Prop
  | .text _ => True
  | .hole e => ∃ limit source, Expr.parse limit source = .ok e

mutual

/-- Names are no keywords, and what stands in the holes of templates can be read. -/
def Expr.Writable : Expr → Prop
  | .literal _ => True
  | .template fragments => ∀ f ∈ fragments, f.Writable
  | .name x => x ∉ Parser.keywords
  | .array items => WritableItems items
  | .object entries => WritableEntries entries
  | .member e _ _ => e.Writable
  | .index e key _ => e.Writable ∧ key.Writable
  | .call e args _ => e.Writable ∧ WritableItems args
  | .construct e args => e.Writable ∧ WritableItems args
  | .unary _ e => e.Writable
  | .binary _ left right => left.Writable ∧ right.Writable
  | .logical _ left right => left.Writable ∧ right.Writable
  | .conditional test consequent alternate =>
    test.Writable ∧ consequent.Writable ∧ alternate.Writable
  | .arrow _ body => body.Writable
termination_by structural e => e

def WritableItems : List Expr → Prop
  | [] => True
  | e :: rest => e.Writable ∧ WritableItems rest
termination_by structural items => items

def WritableEntries : List (String × Expr) → Prop
  | [] => True
  | (_, e) :: rest => e.Writable ∧ WritableEntries rest
termination_by structural entries => entries

end

/-- With parentheses where they are needed, an expression stands at any level. -/
theorem Spells.exists_at {e : Expr} {ts : List Token} {n : Nat} (h : Spells e ts n) (level : Nat) :
    ∃ ts n, SpellsAt level e ts n := by
  rcases Nat.lt_or_ge e.level level with hl | hl
  · exact ⟨_, _, .enclosed hl h⟩
  · exact ⟨_, _, .bare hl h⟩

theorem exists_spells_literal (value : Literal) : ∃ ts n, Spells (.literal value) ts n := by
  cases value with
  | number x => exact ⟨_, _, .number x⟩
  | string s => exact ⟨_, _, .string s⟩
  | bool b =>
    cases b with
    | true => exact ⟨_, _, .true⟩
    | false => exact ⟨_, _, .false⟩
  | null => exact ⟨_, _, .null⟩
  | undefined => exact ⟨_, _, .undefined⟩

theorem exists_spellsItems_cons {e : Expr} {ts us : List Token} {n m : Nat} {rest : List Expr}
    (he : SpellsAt 0 e ts n) (hrest : SpellsItems rest us m) :
    ∃ ts n, SpellsItems (e :: rest) ts n := by
  cases rest with
  | nil => exact ⟨_, _, .one he⟩
  | cons e' rest => exact ⟨_, _, .cons he hrest⟩

theorem exists_spellsEntries_cons {key : String} {e : Expr} {ts us : List Token} {n m : Nat}
    {rest : List (String × Expr)} (he : SpellsAt 0 e ts n) (hrest : SpellsEntries rest us m) :
    ∃ ts n, SpellsEntries ((key, e) :: rest) ts n := by
  have hentry := SpellsEntry.pair (.string key) he
  cases rest with
  | nil => exact ⟨_, _, .one hentry⟩
  | cons e' rest => exact ⟨_, _, .cons hentry hrest⟩

theorem exists_spellsFragments {fragments : List Fragment} (h : ∀ f ∈ fragments, f.Writable) :
    ∃ chunks n, SpellsFragments fragments chunks n := by
  induction fragments with
  | nil => exact ⟨_, _, .nil⟩
  | cons f rest ih =>
    obtain ⟨hf, hrest⟩ := List.forall_mem_cons.1 h
    obtain ⟨_, _, hrest⟩ := ih hrest
    cases f with
    | text s => exact ⟨_, _, .text s hrest⟩
    | hole e =>
      obtain ⟨limit, source, hs⟩ := hf
      exact ⟨_, _, .hole hs hrest⟩

mutual

theorem exists_spells : (e : Expr) → e.Writable → ∃ ts n, Spells e ts n
  | .literal value, _ => exists_spells_literal value
  | .template fragments, h => by
    obtain ⟨_, _, hf⟩ := exists_spellsFragments h
    exact ⟨_, _, .template hf⟩
  | .name x, h => ⟨_, _, .name h⟩
  | .array items, h => by
    obtain ⟨_, _, hi⟩ := exists_spellsItems items h
    exact ⟨_, _, .array hi⟩
  | .object entries, h => by
    obtain ⟨_, _, he⟩ := exists_spellsEntries entries h
    exact ⟨_, _, .object he⟩
  | .member e x optional, h => by
    obtain ⟨_, _, he⟩ := exists_spells e h
    obtain ⟨_, _, he⟩ := he.exists_at 10
    exact ⟨_, _, .member x optional he⟩
  | .index e key optional, ⟨h, hk⟩ => by
    obtain ⟨_, _, he⟩ := exists_spells e h
    obtain ⟨_, _, hk⟩ := exists_spells key hk
    obtain ⟨_, _, he⟩ := he.exists_at 10
    obtain ⟨_, _, hk⟩ := hk.exists_at 0
    exact ⟨_, _, .index optional he hk⟩
  | .call e args optional, ⟨h, ha⟩ => by
    obtain ⟨_, _, he⟩ := exists_spells e h
    obtain ⟨_, _, ha⟩ := exists_spellsItems args ha
    obtain ⟨_, _, he⟩ := he.exists_at 10
    exact ⟨_, _, .call optional he ha⟩
  | .construct e args, ⟨h, ha⟩ => by
    obtain ⟨_, _, he⟩ := exists_spells e h
    obtain ⟨_, _, ha⟩ := exists_spellsItems args ha
    obtain ⟨_, _, he⟩ := he.exists_at 11
    exact ⟨_, _, .construct he ha⟩
  | .unary op e, h => by
    obtain ⟨_, _, he⟩ := exists_spells e h
    obtain ⟨_, _, he⟩ := he.exists_at 9
    exact ⟨_, _, .unary op he⟩
  | .binary op left right, ⟨hl, hr⟩ => by
    obtain ⟨_, _, hl⟩ := exists_spells left hl
    obtain ⟨_, _, hr⟩ := exists_spells right hr
    by_cases hop : op = .pow
    · subst hop
      obtain ⟨_, _, hl⟩ := hl.exists_at 9
      obtain ⟨_, _, hr⟩ := hr.exists_at 8
      exact ⟨_, _, .power hl hr⟩
    · obtain ⟨_, _, hl⟩ := hl.exists_at ((Joint.binary op).level + 1)
      obtain ⟨_, _, hr⟩ := hr.exists_at ((Joint.binary op).level + 2)
      exact ⟨_, _, .binary hop hl hr⟩
  | .logical op left right, ⟨hl, hr⟩ => by
    obtain ⟨_, _, hl⟩ := exists_spells left hl
    obtain ⟨_, _, hr⟩ := exists_spells right hr
    obtain ⟨_, _, hl⟩ := hl.exists_at ((Joint.logical op).level + 1)
    obtain ⟨_, _, hr⟩ := hr.exists_at ((Joint.logical op).level + 2)
    exact ⟨_, _, .logical hl hr⟩
  | .conditional test consequent alternate, ⟨ht, hc, ha⟩ => by
    obtain ⟨_, _, ht⟩ := exists_spells test ht
    obtain ⟨_, _, hc⟩ := exists_spells consequent hc
    obtain ⟨_, _, ha⟩ := exists_spells alternate ha
    obtain ⟨_, _, ht⟩ := ht.exists_at 1
    obtain ⟨_, _, hc⟩ := hc.exists_at 0
    obtain ⟨_, _, ha⟩ := ha.exists_at 0
    exact ⟨_, _, .conditional ht hc ha⟩
  | .arrow params body, h => by
    obtain ⟨_, _, hb⟩ := exists_spells body h
    obtain ⟨_, _, hb⟩ := hb.exists_at 0
    exact ⟨_, _, .arrow params hb⟩
termination_by structural e => e

theorem exists_spellsItems : (items : List Expr) → WritableItems items →
    ∃ ts n, SpellsItems items ts n
  | [], _ => ⟨_, _, .nil⟩
  | e :: rest, ⟨he, hrest⟩ => by
    obtain ⟨_, _, he⟩ := exists_spells e he
    obtain ⟨_, _, hrest⟩ := exists_spellsItems rest hrest
    obtain ⟨_, _, he⟩ := he.exists_at 0
    exact exists_spellsItems_cons he hrest
termination_by structural items => items

theorem exists_spellsEntries : (entries : List (String × Expr)) → WritableEntries entries →
    ∃ ts n, SpellsEntries entries ts n
  | [], _ => ⟨_, _, .nil⟩
  | (key, e) :: rest, ⟨he, hrest⟩ => by
    obtain ⟨_, _, he⟩ := exists_spells e he
    obtain ⟨_, _, hrest⟩ := exists_spellsEntries rest hrest
    obtain ⟨_, _, he⟩ := he.exists_at 0
    exact exists_spellsEntries_cons he hrest
termination_by structural entries => entries

end

end Workflow
