/-! Expressions as trees. -/
namespace Workflow

inductive Literal where
  | number (x : Float)
  | string (s : String)
  | bool (b : Bool)
  | null
  | undefined

inductive UnaryOp where
  | not
  | neg
  | plus
  | typeOf
  deriving Repr, DecidableEq

inductive BinaryOp where
  | add | sub | mul | div | rem | pow
  | lt | le | gt | ge
  | eq | notEq | strictEq | strictNotEq
  deriving Repr, DecidableEq

/-- The operators that evaluate their right operand only when they need it. -/
inductive LogicalOp where
  | and
  | or
  | nullish
  deriving Repr, DecidableEq

mutual

/-- An expression. An `optional` link of a chain ends the chain on a missing value. -/
inductive Expr where
  | literal (value : Literal)
  | template (fragments : List Fragment)
  | name (name : String)
  | array (items : List Expr)
  | object (entries : List (String × Expr))
  | member (object : Expr) (name : String) (optional : Bool)
  | index (object : Expr) (key : Expr) (optional : Bool)
  | call (callee : Expr) (args : List Expr) (optional : Bool)
  | construct (callee : Expr) (args : List Expr)
  | unary (op : UnaryOp) (operand : Expr)
  | binary (op : BinaryOp) (left right : Expr)
  | logical (op : LogicalOp) (left right : Expr)
  | conditional (test consequent alternate : Expr)
  | arrow (params : List String) (body : Expr)

/-- A part of a template literal: text, or an expression whose value is put there. -/
inductive Fragment where
  | text (s : String)
  | hole (e : Expr)

end

instance : Inhabited Expr :=
  ⟨.literal .undefined⟩

end Workflow
