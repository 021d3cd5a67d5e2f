import Workflow.Expr.Joint
import Workflow.Expr.Lexer

/-! Trees from tokens. Every reader takes the tokens from its own place on and gives back what it
leaves, which is shorter. Only a readable number of levels may be open at once; readers of inner
expressions are handed down with one level less. -/
namespace Workflow.Parser

/-- A result and the tokens behind it. -/
abbrev Parsed (α : Type) (ts : List Spanned) : Type :=
  Except ParseFault (α × { rest : List Spanned // rest.length < ts.length })

/-- The first token is not what it should be. -/
def unexpected (ts : List Spanned) : ParseFault :=
  match ts with
  | t :: _ => .malformed (.unexpectedToken t.token) t.offset
  | [] => .malformed (.unexpectedToken .stop) 0

/-- What follows the mark `m`. -/
def mark? (m : Mark) (ts : List Spanned) :
    Option { rest : List Spanned // rest.length < ts.length } :=
  match ts with
  | ⟨.mark m', _⟩ :: rest => if m' = m then some ⟨rest, Nat.lt_succ_self _⟩ else none
  | _ => none

def mark (m : Mark) (ts : List Spanned) :
    Except ParseFault { rest : List Spanned // rest.length < ts.length } :=
  match mark? m ts with
  | some rest => .ok rest
  | none => .error (unexpected ts)

/-- What an inner reader has to read. -/
inductive Goal where
  | expression
  | unary
  | power
  deriving Repr, DecidableEq

/-- How many levels can still be opened, how many could be at first, and the reader of inner
expressions, to which a new limit is given. -/
structure Scope where
  room : Nat
  limit : Nat
  inner : (limit : Nat) → Goal → (ts : List Spanned) → Parsed Expr ts

namespace Scope

def nested (s : Scope) (goal : Goal) (ts : List Spanned) : Parsed Expr ts :=
  s.inner s.limit goal ts

/-- A token that names a property. -/
def propertyName (ts : List Spanned) : Parsed String ts :=
  match ts with
  | ⟨.name name, _⟩ :: rest => .ok (name, ⟨rest, Nat.lt_succ_self _⟩)
  | _ => .error (unexpected ts)

/-- Expressions between commas up to the mark `close`; a comma may stand before it. -/
def items (s : Scope) (close : Mark) (ts : List Spanned) : Parsed (List Expr) ts :=
  match mark? close ts with
  | some rest => .ok ([], rest)
  | none =>
    match s.nested .expression ts with
    | .error fault => .error fault
    | .ok (e, ⟨rest, h⟩) =>
      match mark? .comma rest with
      | some ⟨more, h₁⟩ =>
        match items s close more with
        | .error fault => .error fault
        | .ok (es, ⟨rest, h₂⟩) =>
          .ok (e :: es, ⟨rest, Nat.lt_trans h₂ (Nat.lt_trans h₁ h)⟩)
      | none =>
        match mark close rest with
        | .error fault => .error fault
        | .ok ⟨rest, h₁⟩ => .ok ([e], ⟨rest, Nat.lt_trans h₁ h⟩)
termination_by ts.length
decreasing_by exact Nat.lt_trans h₁ h

/-- An expression and the mark `close` behind it. -/
def enclosed (s : Scope) (close : Mark) (ts : List Spanned) : Parsed Expr ts := do
  let (e, ⟨rest, h⟩) ← s.nested .expression ts
  let ⟨rest, h₁⟩ ← mark close rest
  return (e, ⟨rest, Nat.lt_trans h₁ h⟩)

/-- The key of an entry. -/
def key (ts : List Spanned) : Parsed String ts :=
  match ts with
  | ⟨.name name, _⟩ :: rest => .ok (name, ⟨rest, Nat.lt_succ_self _⟩)
  | ⟨.string s, _⟩ :: rest => .ok (s, ⟨rest, Nat.lt_succ_self _⟩)
  | ⟨.number x, _⟩ :: rest => .ok (Number.display x, ⟨rest, Nat.lt_succ_self _⟩)
  | _ => .error (unexpected ts)

/-- A key with its value; a key alone stands for the name that it spells. -/
def entry (s : Scope) (ts : List Spanned) : Parsed (String × Expr) ts := do
  let (key, ⟨rest, h⟩) ← key ts
  match mark? .colon rest with
  | some ⟨rest, h₁⟩ =>
    let (e, ⟨rest, h₂⟩) ← s.nested .expression rest
    return ((key, e), ⟨rest, Nat.lt_trans h₂ (Nat.lt_trans h₁ h)⟩)
  | none => return ((key, .name key), ⟨rest, h⟩)

/-- The entries of an object up to its closing brace. -/
def entries (s : Scope) (ts : List Spanned) : Parsed (List (String × Expr)) ts :=
  match mark? .rightBrace ts with
  | some rest => .ok ([], rest)
  | none =>
    match entry s ts with
    | .error fault => .error fault
    | .ok (e, ⟨rest, h⟩) =>
      match mark? .comma rest with
      | some ⟨more, h₁⟩ =>
        match entries s more with
        | .error fault => .error fault
        | .ok (es, ⟨rest, h₂⟩) =>
          .ok (e :: es, ⟨rest, Nat.lt_trans h₂ (Nat.lt_trans h₁ h)⟩)
      | none =>
        match mark .rightBrace rest with
        | .error fault => .error fault
        | .ok ⟨rest, h₁⟩ => .ok ([e], ⟨rest, Nat.lt_trans h₁ h⟩)
termination_by ts.length
decreasing_by exact Nat.lt_trans h₁ h

/-- Skips semicolons; nothing but the end may follow them. -/
def finish (ts : List Spanned) : Except ParseFault Unit :=
  match ts with
  | ⟨.mark .semicolon, _⟩ :: rest => finish rest
  | ⟨.stop, _⟩ :: _ => .ok ()
  | _ => .error (unexpected ts)

/-- The tree of a text, with a reader of expressions. -/
def whole (read : (ts : List Spanned) → Parsed Expr ts) (source : String) :
    Except ParseFault Expr := do
  let (e, ⟨rest, _⟩) ← read (← tokenize source)
  finish rest
  return e

/-- Template fragments. The source of a hole is a text of its own, with the room that is left as its
limit. -/
def fragments (s : Scope) (chunks : List Chunk) : Except ParseFault (List Fragment) :=
  chunks.mapM fun
    | .text t => .ok (.text t)
    | .source t => (whole (s.inner s.room .expression) t).map .hole

/-- A name, or the constant that it spells. -/
def ofName (name : String) : Expr :=
  match name with
  | "true" => .literal (.bool true)
  | "false" => .literal (.bool false)
  | "null" => .literal .null
  | "undefined" => .literal .undefined
  | _ => .name name

def primary (s : Scope) (ts : List Spanned) : Parsed Expr ts :=
  match ts with
  | ⟨.number x, _⟩ :: rest => .ok (.literal (.number x), ⟨rest, Nat.lt_succ_self _⟩)
  | ⟨.string t, _⟩ :: rest => .ok (.literal (.string t), ⟨rest, Nat.lt_succ_self _⟩)
  | ⟨.template chunks, _⟩ :: rest =>
    (fragments s chunks).map fun fs => (.template fs, ⟨rest, Nat.lt_succ_self _⟩)
  | ⟨.name name, _⟩ :: rest => .ok (ofName name, ⟨rest, Nat.lt_succ_self _⟩)
  | ⟨.mark .leftParen, _⟩ :: rest =>
    (enclosed s .rightParen rest).map fun (e, r) => (e, ⟨r.1, Nat.lt_succ_of_lt r.2⟩)
  | ⟨.mark .leftBracket, _⟩ :: rest =>
    (items s .rightBracket rest).map fun (es, r) => (.array es, ⟨r.1, Nat.lt_succ_of_lt r.2⟩)
  | ⟨.mark .leftBrace, _⟩ :: rest =>
    (entries s rest).map fun (es, r) => (.object es, ⟨r.1, Nat.lt_succ_of_lt r.2⟩)
  | _ => .error (unexpected ts)

/-- Arguments in parentheses, if there are any. -/
def arguments? (s : Scope) (ts : List Spanned) :
    Except ParseFault (List Expr × { rest : List Spanned // rest.length ≤ ts.length }) :=
  match mark? .leftParen ts with
  | none => .ok ([], ⟨ts, Nat.le_refl _⟩)
  | some ⟨rest, h⟩ =>
    (items s .rightParen rest).map fun (es, r) => (es, ⟨r.1, Nat.le_of_lt (Nat.lt_trans r.2 h)⟩)

def isNew : Token → Bool
  | .name "new" => true
  | _ => false

/-- A primary expression, or a construction from one. -/
def head (s : Scope) (ts : List Spanned) : Parsed Expr ts :=
  match ts with
  | [] => primary s []
  | t :: rest =>
    if isNew t.token then do
      let (callee, ⟨rest, h⟩) ← primary s rest
      let (args, ⟨rest, h₁⟩) ← arguments? s rest
      return (.construct callee args, ⟨rest, Nat.lt_succ_of_lt (Nat.lt_of_le_of_lt h₁ h)⟩)
    else primary s (t :: rest)

/-- One link of a chain behind `e`: a property, an index or a call; `none` if there is no link. -/
def link? (s : Scope) (e : Expr) (ts : List Spanned) : Option (Parsed Expr ts) :=
  match ts with
  | ⟨.mark .dot, _⟩ :: rest =>
    some ((propertyName rest).map fun (name, r) =>
      (.member e name false, ⟨r.1, Nat.lt_succ_of_lt r.2⟩))
  | ⟨.mark .questionDot, _⟩ :: ⟨.mark .leftParen, _⟩ :: rest =>
    some ((items s .rightParen rest).map fun (args, r) =>
      (.call e args true, ⟨r.1, Nat.lt_succ_of_lt (Nat.lt_succ_of_lt r.2)⟩))
  | ⟨.mark .questionDot, _⟩ :: ⟨.mark .leftBracket, _⟩ :: rest =>
    some ((enclosed s .rightBracket rest).map fun (key, r) =>
      (.index e key true, ⟨r.1, Nat.lt_succ_of_lt (Nat.lt_succ_of_lt r.2)⟩))
  | ⟨.mark .questionDot, _⟩ :: rest =>
    some ((propertyName rest).map fun (name, r) =>
      (.member e name true, ⟨r.1, Nat.lt_succ_of_lt r.2⟩))
  | ⟨.mark .leftBracket, _⟩ :: rest =>
    some ((enclosed s .rightBracket rest).map fun (key, r) =>
      (.index e key false, ⟨r.1, Nat.lt_succ_of_lt r.2⟩))
  | ⟨.mark .leftParen, _⟩ :: rest =>
    some ((items s .rightParen rest).map fun (args, r) =>
      (.call e args false, ⟨r.1, Nat.lt_succ_of_lt r.2⟩))
  | _ => none

/-- All links behind `e`. -/
def links (s : Scope) (e : Expr) (ts : List Spanned) :
    Except ParseFault (Expr × { rest : List Spanned // rest.length ≤ ts.length }) :=
  match link? s e ts with
  | none => .ok (e, ⟨ts, Nat.le_refl _⟩)
  | some (.error fault) => .error fault
  | some (.ok (e, ⟨rest, h⟩)) =>
    (links s e rest).map fun (e, r) => (e, ⟨r.1, Nat.le_trans r.2 (Nat.le_of_lt h)⟩)
termination_by ts.length

def chain (s : Scope) (ts : List Spanned) : Parsed Expr ts := do
  let (e, ⟨rest, h⟩) ← head s ts
  let (e, ⟨rest, h₁⟩) ← links s e rest
  return (e, ⟨rest, Nat.lt_of_le_of_lt h₁ h⟩)

def unaryOp? : Token → Option UnaryOp
  | .mark .bang => some .not
  | .mark .minus => some .neg
  | .mark .plus => some .plus
  | .name "typeof" => some .typeOf
  | _ => none

def unary (s : Scope) (ts : List Spanned) : Parsed Expr ts :=
  match ts with
  | [] => chain s []
  | t :: rest =>
    match unaryOp? t.token with
    | some op =>
      (s.nested .unary rest).map fun (e, r) => (.unary op e, ⟨r.1, Nat.lt_succ_of_lt r.2⟩)
    | none => chain s (t :: rest)

/-- A power; it associates to the right. -/
def power (s : Scope) (ts : List Spanned) : Parsed Expr ts := do
  let (base, ⟨rest, h⟩) ← unary s ts
  match mark? .starStar rest with
  | some ⟨rest, h₁⟩ =>
    let (exponent, ⟨rest, h₂⟩) ← s.nested .power rest
    return (.binary .pow base exponent, ⟨rest, Nat.lt_trans h₂ (Nat.lt_trans h₁ h)⟩)
  | none => return (base, ⟨rest, h⟩)

/-- The operator of a level at the start, and what follows it. -/
def joint? (level : Nat) (ts : List Spanned) :
    Option (Joint × { rest : List Spanned // rest.length < ts.length }) :=
  match ts with
  | ⟨.mark m, _⟩ :: rest =>
    ((Joint.ofMark? m).filter (·.level = level)).map (·, ⟨rest, Nat.lt_succ_self _⟩)
  | _ => none

/-- The operands behind `left` that the operators of a level join to it. -/
def joined (operand : (ts : List Spanned) → Parsed Expr ts) (level : Nat) (left : Expr)
    (ts : List Spanned) :
    Except ParseFault (Expr × { rest : List Spanned // rest.length ≤ ts.length }) :=
  match joint? level ts with
  | none => .ok (left, ⟨ts, Nat.le_refl _⟩)
  | some (j, ⟨rest, h⟩) =>
    match operand rest with
    | .error fault => .error fault
    | .ok (right, ⟨rest, h₁⟩) =>
      (joined operand level (j.apply left right) rest).map fun (e, r) =>
        (e, ⟨r.1, Nat.le_trans r.2 (Nat.le_of_lt (Nat.lt_trans h₁ h))⟩)
termination_by ts.length
decreasing_by exact Nat.lt_trans h₁ h

/-- The operators of `count` levels that end with the tightest one; with none, a power. -/
def operators (s : Scope) (count : Nat) (ts : List Spanned) : Parsed Expr ts :=
  match count with
  | 0 => power s ts
  | count + 1 => do
    let (e, ⟨rest, h⟩) ← operators s count ts
    let (e, ⟨rest, h₁⟩) ← joined (operators s count) (Joint.levelCount - (count + 1)) e rest
    return (e, ⟨rest, Nat.lt_of_le_of_lt h₁ h⟩)

/-- Parameters up to a closing parenthesis; a comma may stand before it. -/
def params? (ts : List Spanned) :
    Option (List String × { rest : List Spanned // rest.length < ts.length }) :=
  match ts with
  | ⟨.mark .rightParen, _⟩ :: rest => some ([], ⟨rest, Nat.lt_succ_self _⟩)
  | ⟨.name x, _⟩ :: ⟨.mark .comma, _⟩ :: rest =>
    (params? rest).map fun (xs, r) => (x :: xs, ⟨r.1, Nat.lt_succ_of_lt (Nat.lt_succ_of_lt r.2)⟩)
  | ⟨.name x, _⟩ :: ⟨.mark .rightParen, _⟩ :: rest =>
    some ([x], ⟨rest, Nat.lt_succ_of_lt (Nat.lt_succ_self _)⟩)
  | _ => none

/-- The parameters of a function up to its arrow. -/
def arrowHead? (ts : List Spanned) :
    Option (List String × { rest : List Spanned // rest.length < ts.length }) :=
  match ts with
  | ⟨.name x, _⟩ :: ⟨.mark .arrow, _⟩ :: rest =>
    some ([x], ⟨rest, Nat.lt_succ_of_lt (Nat.lt_succ_self _)⟩)
  | ⟨.mark .leftParen, _⟩ :: rest =>
    match params? rest with
    | some (xs, ⟨rest, h⟩) =>
      (mark? .arrow rest).map fun r => (xs, ⟨r.1, Nat.lt_succ_of_lt (Nat.lt_trans r.2 h)⟩)
    | none => none
  | _ => none

/-- A function, a conditional, or operators. -/
def expression (s : Scope) (ts : List Spanned) : Parsed Expr ts :=
  -- a parenthesis that does not lead to an arrow is read again as part of an operand
  match arrowHead? ts with
  | some (params, ⟨rest, h⟩) =>
    (s.nested .expression rest).map fun (body, r) =>
      (.arrow params body, ⟨r.1, Nat.lt_trans r.2 h⟩)
  | none => do
    let (test, ⟨rest, h⟩) ← operators s Joint.levelCount ts
    match mark? .question rest with
    | none => return (test, ⟨rest, h⟩)
    | some ⟨rest, h₁⟩ =>
      let (consequent, ⟨rest, h₂⟩) ← s.nested .expression rest
      let ⟨rest, h₃⟩ ← mark .colon rest
      let (alternate, ⟨rest, h₄⟩) ← s.nested .expression rest
      return (.conditional test consequent alternate,
        ⟨rest, Nat.lt_trans h₄ (Nat.lt_trans h₃ (Nat.lt_trans h₂ (Nat.lt_trans h₁ h)))⟩)

def read (s : Scope) : Goal → (ts : List Spanned) → Parsed Expr ts
  | .expression, ts => s.expression ts
  | .unary, ts => s.unary ts
  | .power, ts => s.power ts

end Scope

/-- The reader that opens one level of `room`. -/
def nested : (room limit : Nat) → Goal → (ts : List Spanned) → Parsed Expr ts
  | 0, limit, _, _ => .error (.tooDeep limit)
  | room + 1, limit, goal, ts =>
    Scope.read { room, limit, inner := fun limit goal ts => nested room limit goal ts } goal ts

end Parser

/-- The expression that a text spells, nested at most `limit` levels. -/
def Expr.parse (limit : Nat) (source : String) : Except ParseFault Expr :=
  Parser.Scope.whole (Parser.nested limit limit .expression) source

end Workflow
