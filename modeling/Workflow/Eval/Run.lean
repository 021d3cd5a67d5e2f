import Workflow.Eval.ArrayMethods
import Workflow.Eval.NumberMethods

/-! Running expressions. Calls of values take fuel, since functions of the language can call each
other without end; everything else ends by itself. -/
namespace Workflow.Eval

/-- Whether an expression is a link of a chain, which an optional link before it can end. -/
def isChain : Expr → Bool
  | .member .. | .index .. | .call .. => true
  | _ => false

def applyUnary (op : UnaryOp) (v : Value) : Value :=
  match op with
  | .not => .bool !v.isTruthy
  | .neg => .number (-v.toNumber)
  | .plus => .number v.toNumber
  | .typeOf => .string v.typeName

/-- Sums are of texts if one of the operands stands for a text. -/
def add (v w : Value) : EvalM Value :=
  match v.toPrimitive, w.toPrimitive with
  | .string s, w => newString (w.write s)
  | v, .string t => newString (v.display ++ t)
  | v, w => pure (.number (v.toNumber + w.toNumber))

def compare (holds : Ordering → Bool) (v w : Value) : Value :=
  .bool ((v.toPrimitive.order? w.toPrimitive).any holds)

def arithmetic (f : Float → Float → Float) (v w : Value) : Value :=
  .number (f v.toNumber w.toNumber)

def applyBinary (op : BinaryOp) (v w : Value) : EvalM Value :=
  match op with
  | .add => add v w
  | .sub => pure (arithmetic (· - ·) v w)
  | .mul => pure (arithmetic (· * ·) v w)
  | .div => pure (arithmetic (· / ·) v w)
  | .rem => pure (arithmetic Number.remainder v w)
  | .pow => pure (arithmetic Float.pow v w)
  | .lt => pure (compare (·.isLT) v w)
  | .le => pure (compare (·.isLE) v w)
  | .gt => pure (compare (·.isGT) v w)
  | .ge => pure (compare (·.isGE) v w)
  | .eq => pure (.bool (v.looseEq w))
  | .notEq => pure (.bool !(v.looseEq w))
  | .strictEq => pure (.bool (v.strictEq w))
  | .strictNotEq => pure (.bool !(v.strictEq w))

/-- Whether the left operand alone decides. -/
def isDecided (op : LogicalOp) (v : Value) : Bool :=
  match op with
  | .and => !v.isTruthy
  | .or => v.isTruthy
  | .nullish => !v.isNullish

/-- The kind of the value of a name; a name that is unknown has none. -/
def typeOfName (env : Env) (name : String) : EvalM Value :=
  return .string (((lookup? (← read) env name).getD .undefined).typeName)

/-- A point in time made from arguments. -/
def construct (callee : Value) (args : List Value) : EvalM Value := do
  match callee with
  | .space .date => return .date (← orOutOfRange .date (constructDate? (← read).now args))
  | v => mismatch (.notConstructor v.display)

mutual

/-- Evaluates an expression, not counting its own step. A chain that ends early has no value. -/
def step (call : Caller) (env : Env) : Expr → EvalM Link
  | .literal value => return some (.ofLiteral value)
  | .template fragments => do
    let s ← stepFragments call env "" fragments
    some <$> newString s
  | .name name => some <$> readName env name
  | .array items => do
    reserveItems items.length
    some <$> freeArray (← stepItems call env [] items)
  | .object entries => do
    reserveItems entries.length
    some <$> freeObject (← stepEntries call env [] entries)
  | .member e name optional => do
    let some base ← asLink (isChain e) (step call env e) | return none
    if optional && base.isNullish then return none
    some <$> readMember base name
  | .index e key optional => do
    let some base ← asLink (isChain e) (step call env e) | return none
    if optional && base.isNullish then return none
    let key ← asValue (step call env key)
    some <$> readMember base key.display
  | .call e args optional => do
    -- an optional link with nothing before it also ends the links behind it
    let some callee ← asLink (isChain e) (step call env e) | return none
    if optional && callee.isNullish then return none
    some <$> call callee (← stepItems call env [] args)
  | .construct e args => do
    let callee ← asValue (step call env e)
    some <$> construct callee (← stepItems call env [] args)
  -- the type of a name that nothing has is no fault
  | .unary .typeOf (.name name) => some <$> typeOfName env name
  | .unary op e => return some (applyUnary op (← asValue (step call env e)))
  | .binary op left right => do
    let v ← asValue (step call env left)
    let w ← asValue (step call env right)
    some <$> applyBinary op v w
  | .logical op left right => do
    let v ← asValue (step call env left)
    if isDecided op v then return some v
    some <$> asValue (step call env right)
  | .conditional test consequent alternate => do
    if (← asValue (step call env test)).isTruthy then some <$> asValue (step call env consequent)
    else some <$> asValue (step call env alternate)
  | .arrow params body => return some (.func (.closure params body env))
termination_by structural e => e

/-- The values of expressions, behind those in `done`, last first. -/
def stepItems (call : Caller) (env : Env) (done : List Value) : List Expr → EvalM (List Value)
  | [] => return done.reverse
  | e :: rest => do
    let v ← asValue (step call env e)
    stepItems call env (v :: done) rest
termination_by structural items => items

def stepEntries (call : Caller) (env : Env) (done : List (String × Value)) :
    List (String × Expr) → EvalM (List (String × Value))
  | [] => return done.reverse
  | (key, e) :: rest => do
    let v ← asValue (step call env e)
    stepEntries call env ((key, v) :: done) rest
termination_by structural entries => entries

/-- The text of a template literal behind `out`. -/
def stepFragments (call : Caller) (env : Env) (out : String) : List Fragment → EvalM String
  | [] => return out
  | .text s :: rest => do
    let out := out ++ s
    checkBytes out.utf8ByteSize
    stepFragments call env out rest
  | .hole e :: rest => do
    let v ← asValue (step call env e)
    let out := v.write out
    checkBytes out.utf8ByteSize
    stepFragments call env out rest
termination_by structural fragments => fragments

end

/-- The value of an expression. -/
def eval (call : Caller) (env : Env) (e : Expr) : EvalM Value :=
  asValue (step call env e)

/-- Parameters with their arguments, in front of the variables in sight; the last parameter of a
name counts. -/
def bindParams (params : List String) (args : List Value) (env : Env) : Env :=
  (params.mapIdx fun i x => (x, Value.arg args i)).reverse ++ env

def callFunc (call : Caller) (f : Func) (args : List Value) : EvalM Value :=
  match f with
  | .native f => f.apply call args
  | .stringMethod s m => stringMethod call s m args
  | .arrayMethod mark items m => arrayMethod call mark items m args
  | .numberMethod x m => numberMethod x m args
  | .boolMethod b .valueOf => pure (.bool b)
  | .boolMethod b .toString => pure (.string (Value.bool b).display)
  | .dateMethod t m => pure (dateMethod t m)
  | .momentMethod t m => momentMethod t m args
  | .closure params body env => calling (eval call (bindParams params args env) body)

/-- Calls a value with arguments; `call` makes the calls inside. -/
def callOnce (call : Caller) (callee : Value) (args : List Value) : EvalM Value := do
  tick
  match callee with
  | .func f => callFunc call f args
  | .space s =>
    if s.isCallable then convert s args else mismatch (.notFunction callee.display)
  | v => mismatch (.notFunction v.display)

/-- Calls a value with arguments; `fuel` bounds how deep such calls are nested. -/
def callValue : (fuel : Nat) → Caller
  | 0, _, _ => exceed .fuel
  | fuel + 1, callee, args => callOnce (fun callee args => callValue fuel callee args) callee args

/-- The value of an expression without variables, in which calls are nested less deep than `fuel`. -/
def runWith (fuel : Nat) (e : Expr) : EvalM Value :=
  eval (callValue fuel) [] e

/-- More calls than any memory has room for, one inside another. -/
def callFuel : Nat :=
  0x1000_0000_0000_0000

/-- The value of an expression without variables. -/
def run (e : Expr) : EvalM Value :=
  runWith callFuel e

end Workflow.Eval
