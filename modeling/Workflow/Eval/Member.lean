import Workflow.Eval.Convert
import Workflow.Eval.Meter
import Workflow.Fields
import Workflow.Time.Pattern
import Workflow.Time.Units

/-! The members of values and the names in sight. -/
namespace Workflow.Eval

/-- The index that a key spells. `01` and `1.0` are plain keys. -/
def index? (key : String) : Option Nat :=
  (Text.digits? 10 key.toList).filter fun n => n ≤ Number.maxSize && toString n = key

/-- A method together with its receiver, or nothing. -/
def bind? (table : List (String × α)) (key : String) (method : α → Func) : Value :=
  match named? table key with
  | some m => .func (method m)
  | none => .undefined

def momentField (m : Time.Moment) (f : MomentField) : Value :=
  let t := m.wall
  let d := t.date
  match f with
  | .year => .number (Number.ofInt d.year)
  | .quarter => .ofNat d.quarter
  | .month => .ofNat d.month
  | .day => .ofNat d.day
  | .hour => .ofNat t.hour
  | .minute => .ofNat t.minute
  | .second => .ofNat t.second
  | .millisecond => .ofNat t.milli
  | .weekday => .ofNat (d.weekday + 1)
  | .ordinal => .ofNat d.ordinal
  | .offset => .number (Number.ofInt (m.offset.tdiv 60))
  | .zoneName => .string (Time.offsetName m.offset)
  | .monthLong => .string d.monthName
  | .monthShort => .string (Time.short d.monthName)
  | .weekdayLong => .string d.weekdayName
  | .weekdayShort => .string (Time.short d.weekdayName)
  | .isValid => .bool true

/-- The member of a global object under a key. -/
def spaceMember (s : Namespace) (key : String) : Value :=
  match named? (constants s) key with
  | some x => .number x
  | none =>
    match named? (Native.members s) key with
    | some f => .func (.native f)
    | none => .undefined

/-- The item at an index, the length, or a method. -/
def arrayMember (mark : Mark) (items : List Value) (key : String) : Value :=
  match index? key with
  | some i => items.getD i .undefined
  | none =>
    if key = "length" then .ofNat items.length
    else bind? ArrayMethod.table key (.arrayMethod mark items)

/-- The character at an index, the length, or a method. -/
def stringMember (s : String) (key : String) : Value :=
  match index? key with
  | some i =>
    match s.toList[i]? with
    | some c => .ofChar c
    | none => .undefined
  | none =>
    if key = "length" then .ofNat s.length
    else bind? StringMethod.table key (.stringMethod s)

/-- The member of a value that has members. -/
def member (v : Value) (key : String) : Value :=
  match v with
  | .object _ entries => (Fields.get? entries key).getD .undefined
  | .array mark items => arrayMember mark items key
  | .string s => stringMember s key
  | .number x => bind? NumberMethod.table key (.numberMethod x)
  | .bool b => bind? BoolMethod.table key (.boolMethod b)
  | .date t => bind? DateMethod.table key (.dateMethod t)
  | .moment m =>
    match named? MomentField.table key with
    | some f => momentField m f
    | none => bind? MomentMethod.table key (.momentMethod m)
  | .space s => spaceMember s key
  | .undefined | .null | .func _ => .undefined

/-- The member of a value; the missing values have none. -/
def readMember (v : Value) (key : String) : EvalM Value :=
  if v.isNullish then mismatch (.noProperties v.display key) else pure (member v key)

/-- A global object or function. -/
def global? (name : String) : Option Value :=
  match named? Namespace.table name with
  | some s => some (.space s)
  | none => (named? Native.globals name).map fun f => .func (.native f)

/-- The start of the day of a moment. -/
def startOfDay (m : Time.Moment) : Time.Moment :=
  (m.startOf? .day).getD m

/-- The value of a name: a variable, a root of the context, or a global. -/
def lookup? (setting : Setting) (env : Env) (name : String) : Option Value :=
  match named? env name with
  | some v => some v
  | none =>
    match named? setting.roots name with
    | some v => some v
    | none =>
      match name with
      | "$now" => some (.moment (.ofUtc setting.now))
      | "$today" => some (.moment (startOfDay (.ofUtc setting.now)))
      | "NaN" => some (.number Number.nan)
      | "Infinity" => some (.number Number.infinity)
      | _ => global? name

def readName (env : Env) (name : String) : EvalM Value := do
  match lookup? (← read) env name with
  | some v => return v
  | none => fail (.unknownName name)

end Workflow.Eval
