import Workflow.Expr.Basic
import Workflow.Expr.Token

/-! The text of a tree, on one line, with every part under its name. Each writer puts its text
behind `out`. -/
namespace Workflow

def Literal.text : Literal → String
  | .number x => numberText x
  | .string s => stringText s
  | .bool b => "Bool(" ++ (if b then "true" else "false") ++ ")"
  | .null => "Null"
  | .undefined => "Undefined"

def UnaryOp.text : UnaryOp → String
  | .not => "Not"
  | .neg => "Neg"
  | .plus => "Plus"
  | .typeOf => "TypeOf"

def BinaryOp.text : BinaryOp → String
  | .add => "Add"
  | .sub => "Sub"
  | .mul => "Mul"
  | .div => "Div"
  | .rem => "Rem"
  | .pow => "Pow"
  | .lt => "Lt"
  | .le => "Le"
  | .gt => "Gt"
  | .ge => "Ge"
  | .eq => "Eq"
  | .notEq => "NotEq"
  | .strictEq => "StrictEq"
  | .strictNotEq => "StrictNotEq"

def LogicalOp.text : LogicalOp → String
  | .and => "And"
  | .or => "Or"
  | .nullish => "Nullish"

namespace Expr

/-- The end of a link or call. -/
def optionalText (optional : Bool) : String :=
  ", optional: " ++ (if optional then "true" else "false") ++ " \x7d"

mutual

def write (out : String) : Expr → String
  | .literal value => out ++ "Literal(" ++ value.text ++ ")"
  | .template fragments => writeFragments (out ++ "Template([") true fragments ++ "])"
  | .name x => out ++ nameText x
  | .array items => writeList (out ++ "Array([") true items ++ "])"
  | .object entries => writeEntries (out ++ "Object([") true entries ++ "])"
  | .member e property optional =>
    write (out ++ "Member \x7b object: ") e ++ ", property: Named(" ++ Text.quoted property ++
      ")" ++ optionalText optional
  | .index e key optional =>
    write (write (out ++ "Member \x7b object: ") e ++ ", property: Computed(") key ++ ")" ++
      optionalText optional
  | .call callee args optional =>
    writeList (write (out ++ "Call \x7b callee: ") callee ++ ", args: [") true args ++ "]" ++
      optionalText optional
  | .construct callee args =>
    writeList (write (out ++ "New \x7b callee: ") callee ++ ", args: [") true args ++ "] \x7d"
  | .unary op operand =>
    write (out ++ "Unary \x7b op: " ++ op.text ++ ", operand: ") operand ++ " \x7d"
  | .binary op left right =>
    write (write (out ++ "Binary \x7b op: " ++ op.text ++ ", left: ") left ++ ", right: ") right ++
      " \x7d"
  | .logical op left right =>
    write (write (out ++ "Logical \x7b op: " ++ op.text ++ ", left: ") left ++ ", right: ") right ++
      " \x7d"
  | .conditional test consequent alternate =>
    write (write (write (out ++ "Conditional \x7b test: ") test ++ ", consequent: ") consequent ++
      ", alternate: ") alternate ++ " \x7d"
  | .arrow params body =>
    write (out ++ "Arrow(ArrowFn \x7b params: " ++ listText (params.map Text.quoted) ++ ", body: ")
      body ++ " \x7d)"
termination_by structural e => e

def writeList (out : String) (first : Bool) : List Expr → String
  | [] => out
  | e :: rest => writeList (write (if first then out else out ++ ", ") e) false rest
termination_by structural items => items

def writeEntries (out : String) (first : Bool) : List (String × Expr) → String
  | [] => out
  | (key, e) :: rest =>
    let start := (if first then out else out ++ ", ") ++ "(" ++ Text.quoted key ++ ", "
    writeEntries (write start e ++ ")") false rest
termination_by structural entries => entries

def writeFragments (out : String) (first : Bool) : List Fragment → String
  | [] => out
  | .text s :: rest =>
    let start := if first then out else out ++ ", "
    writeFragments (start ++ "Text(" ++ Text.quoted s ++ ")") false rest
  | .hole e :: rest =>
    let start := if first then out else out ++ ", "
    writeFragments (write (start ++ "Expr(") e ++ ")") false rest
termination_by structural fragments => fragments

end

def text (e : Expr) : String :=
  write "" e

end Expr

end Workflow
