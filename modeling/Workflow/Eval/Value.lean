import Workflow.Eval.Names
import Workflow.Expr.Basic
import Workflow.Json.Basic
import Workflow.Time.Moment

/-! The values of expressions. -/
namespace Workflow.Eval

/-- What an array or object was made from: a root of the context, or an evaluation step. -/
inductive Origin where
  | root (name : String)
  | made (serial : Nat)
  deriving Repr, DecidableEq

/-- Tells apart arrays and objects that are made apart, also when their contents are equal. -/
structure Mark where
  origin : Origin
  /-- The positions inside the value that was made, the innermost first. -/
  place : List Nat := []
  deriving Repr, DecidableEq

/-- The mark of the part at a position. -/
def Mark.part (m : Mark) (i : Nat) : Mark :=
  { m with place := i :: m.place }

mutual

inductive Value where
  | undefined
  | null
  | bool (b : Bool)
  | number (x : Float)
  | string (s : String)
  | array (mark : Mark) (items : List Value)
  | object (mark : Mark) (entries : List (String × Value))
  /-- A point in time without an offset. -/
  | date (t : Time.Timestamp)
  | moment (m : Time.Moment)
  | space (s : Namespace)
  | func (f : Func)

/-- Functions: those of the language, methods together with their receivers, and those that
expressions define, with the variables in sight, the innermost first. -/
inductive Func where
  | native (f : Native)
  | stringMethod (s : String) (m : StringMethod)
  | arrayMethod (mark : Mark) (items : List Value) (m : ArrayMethod)
  | numberMethod (x : Float) (m : NumberMethod)
  | boolMethod (b : Bool) (m : BoolMethod)
  | dateMethod (t : Time.Timestamp) (m : DateMethod)
  | momentMethod (t : Time.Moment) (m : MomentMethod)
  | closure (params : List String) (body : Expr) (env : List (String × Value))

end

instance : Inhabited Value :=
  ⟨.undefined⟩

/-- Variables with their values, the innermost first. -/
abbrev Env :=
  List (String × Value)

namespace Value

def isNullish : Value → Bool
  | .undefined | .null => true
  | _ => false

def isFunction : Value → Bool
  | .func _ => true
  | .space s => s.isCallable
  | _ => false

def isTruthy : Value → Bool
  | .undefined | .null => false
  | .bool b => b
  | .number x => x != 0.0 && !x.isNaN
  | .string s => s != ""
  | _ => true

/-- The name of the kind of value that a value is. -/
def typeName : Value → String
  | .undefined => "undefined"
  | .bool _ => "boolean"
  | .number _ => "number"
  | .string _ => "string"
  | .func _ => "function"
  | .space s => if s.isCallable then "function" else "object"
  | _ => "object"

def ofNat (n : Nat) : Value :=
  .number (Float.ofNat n)

/-- A text of one character. -/
def ofChar (c : Char) : Value :=
  .string c.toString

def ofLiteral : Literal → Value
  | .number x => .number x
  | .string s => .string s
  | .bool b => .bool b
  | .null => .null
  | .undefined => .undefined

/-- The argument at a position, or nothing. -/
def arg (args : List Value) (i : Nat) : Value :=
  args.getD i .undefined

/-- The parts of a value are told apart by its mark and their positions. -/
def ofLists (mark : Mark) (lists : List (List Value)) : List Value :=
  lists.mapIdx fun i items => .array (mark.part i) items

end Value

end Workflow.Eval
