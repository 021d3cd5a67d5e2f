import Workflow.Eval.Run

/-! Calls by name. A function is known as a name of the language, as a method name with its
receiver, or as a function that an expression defines; the names are looked up in tables, and what
a call of a name comes to is found again by comparing the name. -/
namespace Workflow.Eval

/-- The name of a member of a global object. -/
def Namespace.memberName (s : Namespace) (key : String) : String :=
  s.name ++ "." ++ key

/-- The functions that come with the language, under their names. -/
def Native.table : List (String × Native) :=
  Native.globals ++ Namespace.table.flatMap fun (_, s) =>
    (Native.members s).map fun (key, f) => (s.memberName key, f)

/-- The names of the methods of a value. -/
def methodNames : Value → List String
  | .string _ => StringMethod.table.map (·.1)
  | .array _ _ => ArrayMethod.table.map (·.1)
  | .number _ => NumberMethod.table.map (·.1)
  | .bool _ => BoolMethod.table.map (·.1)
  | .date _ => DateMethod.table.map (·.1)
  | .moment _ => MomentMethod.table.map (·.1)
  | .undefined | .null | .object .. | .space _ | .func _ => []

/-- A function by its name. -/
inductive NamedFunc where
  | native (name : String)
  | bound (receiver : Value) (method : String)
  | closure (params : List String) (body : Expr) (env : Env)

/-- Whether the name is in the table that it is looked up in. -/
def NamedFunc.Listed : NamedFunc → Prop
  | .native name => name ∈ Native.table.map (·.1)
  | .bound receiver method => method ∈ methodNames receiver
  | .closure .. => True

/-- The last arm of a dispatcher, which a name comes to that no other arm has. -/
inductive Stray where
  | native (name : String)
  | static (name : String)
  | math (op : String)
  | helper (name : String)
  | array (name : String)
  | method (kind name : String)
  deriving DecidableEq

def Stray.outcome : Stray → EvalM Value
  | .native name | .static name => mismatch (.notFunction name)
  | .math op => mismatch (.notFunction ("Math." ++ op))
  | .helper name => fail (.unknownName name)
  | .array _ => pure .undefined
  | .method kind name => mismatch (.notFunction (kind ++ "." ++ name))

/-- What a call of a name comes to: the body of a function, the conversion to the kind of value of a
global object, or the last arm of a dispatcher. -/
inductive Arm (φ : Type) where
  | body (f : φ)
  | convert (s : Namespace)
  | stray (s : Stray)
  deriving DecidableEq

def Arm.map (g : φ → ψ) : Arm φ → Arm ψ
  | .body f => .body (g f)
  | .convert s => .convert s
  | .stray s => .stray s

def Arm.run (call : Caller) (args : List Value) : Arm Func → EvalM Value
  | .body f => callFunc call f args
  | .convert s => Eval.convert s args
  | .stray s => s.outcome

/-- Whether a name begins with a text. -/
def beginsWith (front name : String) : Bool :=
  front.toList.isPrefixOf name.toList

/-- What stands behind the beginning of a name. -/
def behind (front name : String) : String :=
  String.ofList (name.toList.drop front.length)

def mathArm (op : String) : Arm MathOp :=
  match op with
  | "abs" => .body .abs
  | "ceil" => .body .ceil
  | "floor" => .body .floor
  | "round" => .body .round
  | "trunc" => .body .trunc
  | "sign" => .body .sign
  | "sqrt" => .body .sqrt
  | "cbrt" => .body .cbrt
  | "exp" => .body .exp
  | "log" => .body .log
  | "log2" => .body .log2
  | "log10" => .body .log10
  | "sin" => .body .sin
  | "cos" => .body .cos
  | "tan" => .body .tan
  | "asin" => .body .asin
  | "acos" => .body .acos
  | "atan" => .body .atan
  | "atan2" => .body .atan2
  | "pow" => .body .pow
  | "hypot" => .body .hypot
  | "max" => .body .max
  | "min" => .body .min
  | _ => .stray (.math op)

/-- The functions of points in time. -/
def staticArm (name : String) : Arm Native :=
  match name with
  | "Date" => .convert .date
  | "Date.now" => .body .dateNow
  | "Date.parse" => .body .dateParse
  | "DateTime.now" => .body .dateTimeNow
  | "DateTime.fromISO" => .body .dateTimeFromISO
  | "DateTime.fromMillis" => .body .dateTimeFromMillis
  | "DateTime.fromJSDate" => .body .dateTimeFromJSDate
  | "DateTime.utc" => .body .dateTimeUtc
  | _ => .stray (.static name)

def helperNames : List String :=
  ["isExecuted", "hasData", "getNodeData", "firstExecuted"]

def helperArm (name : String) : Arm NodeHelper :=
  match name with
  | "isExecuted" => .body .isExecuted
  | "hasData" => .body .hasData
  | "getNodeData" => .body .getNodeData
  | "firstExecuted" => .body .firstExecuted
  | _ => .stray (.helper name)

/-- The functions whose names are compared as a whole. -/
def plainArm (name : String) : Arm Native :=
  match name with
  | "JSON.stringify" => .body .jsonStringify
  | "JSON.parse" => .body .jsonParse
  | "Object.keys" => .body .objectKeys
  | "Object.values" => .body .objectValues
  | "Object.entries" => .body .objectEntries
  | "Object.assign" => .body .objectAssign
  | "Object.fromEntries" => .body .objectFromEntries
  | "Object" => .convert .object
  | "Array.isArray" => .body .arrayIsArray
  | "Array.from" => .body .arrayFrom
  | "Array.of" => .body .arrayOf
  | "Array" => .convert .array
  | "Number" => .convert .number
  | "Number.isInteger" => .body .numberIsInteger
  | "Number.isFinite" => .body .numberIsFinite
  | "Number.isNaN" => .body .numberIsNaN
  | "parseFloat" | "Number.parseFloat" => .body .parseFloat
  | "parseInt" | "Number.parseInt" => .body .parseInt
  | "isNaN" => .body .isNaN
  | "isFinite" => .body .isFinite
  | "String" => .convert .string
  | "String.fromCharCode" => .body .stringFromCharCode
  | "Boolean" => .convert .boolean
  | "encodeURIComponent" => .body .encodeURIComponent
  | "encodeURI" => .body .encodeURI
  | "decodeURIComponent" => .body .decodeURIComponent
  | "decodeURI" => .body .decodeURI
  | _ => if beginsWith "console." name then .body .log else .stray (.native name)

/-- What a call of a function that comes with the language comes to. -/
def nativeArm (name : String) : Arm Native :=
  if beginsWith "Math." name then (mathArm (behind "Math." name)).map .math
  else if name = "Date" ∨ beginsWith "Date." name ∨ beginsWith "DateTime." name then staticArm name
  else if name ∈ helperNames then (helperArm name).map .nodeHelper
  else plainArm name

def stringArm (method : String) : StringMethod :=
  match method with
  | "toUpperCase" => .toUpperCase
  | "toLowerCase" => .toLowerCase
  | "trim" => .trim
  | "trimStart" => .trimStart
  | "trimEnd" => .trimEnd
  | "includes" => .includes
  | "startsWith" => .startsWith
  | "endsWith" => .endsWith
  | "indexOf" => .indexOf
  | "lastIndexOf" => .lastIndexOf
  | "slice" => .slice
  | "substring" => .substring
  | "split" => .split
  | "replace" => .replace
  | "replaceAll" => .replaceAll
  | "padStart" => .padStart
  | "padEnd" => .padEnd
  | "repeat" => .repeat
  | "charAt" => .charAt
  | "charCodeAt" => .charCodeAt
  | "at" => .at
  | "concat" => .concat
  | "localeCompare" => .localeCompare
  | _ => .valueOf

def arrayArm (method : String) : Arm ArrayMethod :=
  match method with
  | "map" => .body .map
  | "flatMap" => .body .flatMap
  | "filter" => .body .filter
  | "find" => .body .find
  | "findIndex" => .body .findIndex
  | "some" => .body .some
  | "every" => .body .every
  | "forEach" => .body .forEach
  | "reduce" => .body .reduce
  | "join" => .body .join
  | "toString" => .body .toString
  | "includes" => .body .includes
  | "indexOf" => .body .indexOf
  | "lastIndexOf" => .body .lastIndexOf
  | "slice" => .body .slice
  | "concat" => .body .concat
  | "reverse" => .body .reverse
  | "flat" => .body .flat
  | "at" => .body .at
  | "sort" => .body .sort
  | _ => .stray (.array method)

def numberArm (method : String) : NumberMethod :=
  match method with
  | "toFixed" => .toFixed
  | "toString" => .toString
  | "toLocaleString" => .toLocaleString
  | _ => .valueOf

def boolArm (method : String) : BoolMethod :=
  match method with
  | "valueOf" => .valueOf
  | _ => .toString

def dateArm (method : String) : DateMethod :=
  match method with
  | "getTime" | "valueOf" => .time
  | "getFullYear" | "getUTCFullYear" => .year
  | "getMonth" | "getUTCMonth" => .month
  | "getDate" | "getUTCDate" => .day
  | "getDay" | "getUTCDay" => .weekday
  | "getHours" | "getUTCHours" => .hours
  | "getMinutes" | "getUTCMinutes" => .minutes
  | "getSeconds" | "getUTCSeconds" => .seconds
  | "getMilliseconds" => .millis
  | "getTimezoneOffset" => .offset
  | _ => .iso

def momentArm (method : String) : MomentMethod :=
  match method with
  | "plus" => .plus
  | "minus" => .minus
  | "toFormat" => .toFormat
  | "toISODate" => .toISODate
  | "toISOTime" => .toISOTime
  | "toMillis" | "valueOf" => .toMillis
  | "toSeconds" => .toSeconds
  | "toUnixInteger" => .toUnixInteger
  | "startOf" => .startOf
  | "endOf" => .endOf
  | "setZone" => .setZone
  | "toUTC" => .toUTC
  | "toJSDate" => .toJSDate
  | _ => .toISO

/-- What a call of a method of a receiver comes to. -/
def methodArm (receiver : Value) (method : String) : Arm Func :=
  match receiver with
  | .string s => .body (.stringMethod s (stringArm method))
  | .array mark items => (arrayArm method).map (.arrayMethod mark items)
  | .number x => .body (.numberMethod x (numberArm method))
  | .bool b => .body (.boolMethod b (boolArm method))
  | .date t => .body (.dateMethod t (dateArm method))
  | .moment m => .body (.momentMethod m (momentArm method))
  | v => .stray (.method v.typeName method)

def NamedFunc.arm : NamedFunc → Arm Func
  | .native name => (nativeArm name).map .native
  | .bound receiver method => methodArm receiver method
  | .closure params body env => .body (.closure params body env)

/-- What a call of a value comes to, with functions known under the names that `name` gives; `none`
if the value is refused because it is no function. -/
def calleeArm? (name : Func → NamedFunc) (callee : Value) : Option (Arm Func) :=
  match callee with
  | .func f => some (name f).arm
  | .space s =>
    if callee.typeName = "function" then some ((nativeArm s.name).map .native) else none
  | _ => none

/-- Calls a value with arguments; `call` makes the calls inside. -/
def callNamedOnce (name : Func → NamedFunc) (call : Caller) (callee : Value) (args : List Value) :
    EvalM Value := do
  tick
  match calleeArm? name callee with
  | some arm => arm.run call args
  | none => mismatch (.notFunction callee.display)

/-- A function goes by a name: the name is listed, and its calls are those of the function. -/
structure GoesBy (f : Func) (n : NamedFunc) : Prop where
  listed : n.Listed
  run : ∀ call args, n.arm.run call args = callFunc call f args

/-- Names for functions, which can be others at each step of an evaluation. -/
structure Naming where
  name : Meter → Func → NamedFunc
  goesBy : ∀ meter f, GoesBy f (name meter f)

/-- Calls a value with arguments; `fuel` bounds how deep such calls are nested. -/
def callNamed (naming : Naming) : (fuel : Nat) → Caller
  | 0, _, _ => exceed .fuel
  | fuel + 1, callee, args => do
    callNamedOnce (naming.name (← get)) (fun callee args => callNamed naming fuel callee args)
      callee args

/-- The values inside an array or object. -/
def Value.parts : Value → List Value
  | .array _ items => items
  | .object _ entries => entries.map (·.2)
  | _ => []

end Workflow.Eval
