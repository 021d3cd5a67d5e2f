import Workflow.Eval.Dates
import Workflow.Eval.Math
import Workflow.Json.Parser
import Workflow.Json.Printer
import Workflow.Text.Percent

/-! The functions that come with the language. Those that call other functions are given a way to
call them. -/
namespace Workflow.Eval

/-- A way to call values with arguments. -/
abbrev Caller :=
  Value → List Value → EvalM Value

/-- The argument at a position, which has to be a function. -/
def callback (args : List Value) (i : Nat) (role : String) : EvalM Value :=
  let f := Value.arg args i
  if f.isFunction then pure f else mismatch (.notCallback f.display role)

/-- The characters of a text as values. -/
def characters (s : String) : List Value :=
  s.toList.map Value.ofChar

/-- The entries of a value under their keys; items and characters have their positions as keys. -/
def entriesOf : Value → List (String × Value)
  | .object _ entries => entries
  | .array _ items => items.mapIdx fun i v => (toString i, v)
  | .string s => (characters s).mapIdx fun i v => (toString i, v)
  | _ => []

/-- The entry that an array of a key and a value stands for. -/
def pair? : Value → Option (String × Value)
  | .array _ kv => some ((Value.arg kv 0).display, Value.arg kv 1)
  | _ => none

/-- An empty object, or the value itself if it is a collection. -/
def toObject (v : Value) : EvalM Value :=
  match v with
  | .object .. | .array .. => pure v
  | _ => freeObject []

/-- An array with the given items, or with as many missing ones as a single number says. -/
def toArray (args : List Value) : EvalM Value := do
  match args with
  | [.number x] =>
    if x < 0.0 ∨ !Number.isWhole x then outOfRange .arrayLength
    else
      let n := Number.clampNat Number.maxSize x
      reserveItems n
      freeArray (List.replicate n .undefined)
  | _ => newArray args

/-- The items of a collection. An object has as many missing ones as its length says. -/
def itemsOf (v : Value) : EvalM (List Value) := do
  match v with
  | .array _ items => return items
  | .string s => return characters s
  | .object _ entries =>
    let length := ((Fields.get? entries "length").map Value.toInteger).getD 0.0
    let n := Number.clampNat Number.maxSize length
    checkLength n
    return List.replicate n .undefined
  | _ => return []

/-- Calls `f` with every item and further arguments that depend on its position; the results are
kept last first. -/
def mapFrom (call : List Value → EvalM Value) (rest : Nat → List Value) (i : Nat)
    (done : List Value) : List Value → EvalM (List Value)
  | [] => return done.reverse
  | v :: items => do
    let w ← call (v :: rest i)
    mapFrom call rest (i + 1) (w :: done) items

def collect (call : Caller) (args : List Value) : EvalM Value := do
  let items ← itemsOf (Value.arg args 0)
  reserveItems items.length
  if args.length < 2 then freeArray items
  else
    let f ← callback args 1 "Array.from"
    freeArray (← mapFrom (call f) (fun i => [.ofNat i]) 0 [] items)

/-- The text before each level of indented JSON: up to ten blanks or characters. -/
def indentOf : Value → String
  | .number x =>
    if 1.0 ≤ x then String.ofList (List.replicate (min (Number.clampNat 10 x) 10) ' ') else ""
  | .string s => String.ofList (s.toList.take 10)
  | _ => ""

def stringify (args : List Value) : EvalM Value :=
  match (Value.arg args 0).toJson? with
  | none => pure .undefined
  | some json =>
    let indent := indentOf (Value.arg args 2)
    newString (if indent = "" then json.compact else json.pretty indent)

def parseJson (s : String) : EvalM Value := do
  match Json.parse? s with
  | some json => return .ofJson (← freshMark) json
  | none => fail .malformedJson

/-- The character with the given code, if there is one. -/
def charOfCode? (v : Value) : Option Char :=
  let n := Number.clampNat 0xffff_ffff v.toInteger
  if n.isValidChar then some (Char.ofNat n) else none

def decodeUri (keep : List Char) (s : String) : EvalM Value :=
  match Text.percentDecode keep s with
  | some t => pure (.string t)
  | none => fail .malformedUri

/-- The output of a node, among those of all nodes. -/
def nodeOutput? (nodes : Value) (name : String) : Option Value :=
  match nodes with
  | .object _ entries => Fields.get? entries name
  | _ => none

/-- Whether an output is there, and is not empty. -/
def hasContent : Option Value → Bool
  | none | some .null | some .undefined => false
  | some (.array _ items) => !items.isEmpty
  | some (.object _ entries) => !entries.isEmpty
  | some (.string s) => s != ""
  | some _ => true

/-- The names in an array, or as arguments of their own. -/
def nodeNames : List Value → List String
  | [.array _ items] => items.map Value.display
  | args => args.map Value.display

def NodeHelper.apply (h : NodeHelper) (nodes : Value) (args : List Value) : Value :=
  let output := nodeOutput? nodes ((args.head?.map Value.display).getD "")
  match h with
  | .isExecuted => .bool output.isSome
  | .hasData => .bool (hasContent output)
  | .getNodeData =>
    match output with
    | some v => if v.isNullish then Value.arg args 1 else v
    | none => Value.arg args 1
  | .firstExecuted => ((nodeNames args).findSome? (nodeOutput? nodes)).getD .undefined

/-- The radix of an integer, if it is given. -/
def radixOf (args : List Value) : Option Float :=
  match args[1]? with
  | some v => if v.isNullish then none else some v.toNumber
  | none => none

/-- What a global object converts its arguments to. -/
def convert (s : Namespace) (args : List Value) : EvalM Value := do
  match s with
  | .string => return .string ((args.head?.map Value.display).getD "")
  | .number => return .number ((args.head?.map Value.toNumber).getD 0.0)
  | .boolean => return .bool (Value.arg args 0).isTruthy
  | .array => toArray args
  | .object => toObject (Value.arg args 0)
  | .date => return .string (← read).now.isoText
  | _ => mismatch (.notFunction (Value.space s).display)

def Native.apply (call : Caller) (f : Native) (args : List Value) : EvalM Value := do
  let first := Value.arg args 0
  match f with
  | .parseInt => return .number (Number.leadingInt first.display.toList (radixOf args))
  | .parseFloat => return .number (Number.leading first.display.toList)
  | .isNaN => return .bool first.toNumber.isNaN
  | .isFinite => return .bool first.toNumber.isFinite
  | .encodeURIComponent =>
    newString (String.ofList (Text.percentEncode Text.unreserved first.display.toList))
  | .encodeURI =>
    newString (String.ofList
      (Text.percentEncode (Text.unreserved ++ Text.reserved) first.display.toList))
  | .decodeURIComponent => decodeUri [] first.display
  | .decodeURI => decodeUri Text.reserved first.display
  | .nodeHelper h => return h.apply ((named? (← read).roots "$node").getD .undefined) args
  | .math op => return .number (op.apply (args.map Value.toNumber))
  | .jsonStringify => stringify args
  | .jsonParse => parseJson first.display
  | .objectKeys => freeArray ((entriesOf first).map fun (key, _) => .string key)
  | .objectValues => freeArray ((entriesOf first).map (·.2))
  | .objectEntries =>
    let mark ← freshMark
    return .array mark (Value.ofLists mark ((entriesOf first).map fun (key, v) => [.string key, v]))
  | .objectAssign =>
    let merged := Fields.ofList (args.flatMap entriesOf)
    reserveItems merged.length
    freeObject merged
  | .objectFromEntries =>
    match first with
    | .array _ items => freeObject (items.filterMap pair?)
    | _ => freeObject []
  | .arrayIsArray =>
    match first with
    | .array .. => return .bool true
    | _ => return .bool false
  | .arrayFrom => collect call args
  | .arrayOf => newArray args
  | .numberIsInteger =>
    match first with
    | .number x => return .bool (Number.isWhole x)
    | _ => return .bool false
  | .numberIsFinite =>
    match first with
    | .number x => return .bool x.isFinite
    | _ => return .bool false
  | .numberIsNaN =>
    match first with
    | .number x => return .bool x.isNaN
    | _ => return .bool false
  | .stringFromCharCode => newString (String.ofList (args.filterMap charOfCode?))
  | .dateNow => return .number (Number.ofInt (← read).now.toMillis)
  | .dateParse =>
    return .number ((Time.Moment.parse? first.display).elim Number.nan fun m =>
      Number.ofInt m.utc.toMillis)
  | .dateTimeNow => return .moment (.ofUtc (← read).now)
  | .dateTimeUtc =>
    if args.isEmpty then return .moment (.ofUtc (← read).now)
    else return .moment (.ofUtc (← orOutOfRange .moment (ofParts? args 1)))
  | .dateTimeFromISO => return .moment (← orOutOfRange .moment (Time.Moment.parse? first.display))
  | .dateTimeFromMillis =>
    return .moment (.ofUtc (← orOutOfRange .moment (ofFloatMillis? first.toNumber)))
  | .dateTimeFromJSDate =>
    match first with
    | .date t => return .moment (.ofUtc t)
    | _ => outOfRange .moment
  | .log => return .undefined

end Workflow.Eval
