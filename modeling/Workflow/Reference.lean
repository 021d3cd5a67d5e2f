import Workflow.Context
import Workflow.Path
import Workflow.Text.Search

/-! Direct references to the data of a context, such as `$vars.region` or `$node["Name"].id`. -/
namespace Workflow

open Text

inductive Reference where
  | node (name : String) (path : List Char)
  | vars (path : List Char)
  | workflow (path : List Char)
  | execution (path : List Char)
  | jsonIndex (index : Nat) (path : List Char)
  | json (path : List Char)
  | itemIndex
  deriving Repr, DecidableEq

namespace Reference

/-- A path has to be on one line. -/
def oneLine? (path : List Char) : Option (List Char) :=
  if path.contains '\n' then none else some path

def skipBlanks (s : List Char) : List Char :=
  s.dropWhile isAsciiBlank

/-- What follows a closing bracket, with white space before it. -/
def afterBracket? (s : List Char) : Option (List Char) :=
  match skipBlanks s with
  | ']' :: path => oneLine? path
  | _ => none

def isNameStart (c : Char) : Bool :=
  c.isAlpha || c = '_'

def isNamePart (c : Char) : Bool :=
  c.isAlphanum || c = '_'

/-- A node by its quoted name in brackets, or by its name behind a dot. -/
def node? (content : List Char) : Option Reference := do
  match ← dropStart? "$node".toList content with
  | '[' :: rest =>
    match skipBlanks rest with
    | q :: body =>
      if q = '\x22' ∨ q = '\'' then
        let (name, rest) ← cutChar? q body
        return .node (String.ofList name) (← afterBracket? rest)
      else none
    | [] => none
  | '.' :: c :: rest =>
    if isNameStart c then
      return .node (String.ofList (c :: rest.takeWhile isNamePart))
        (← oneLine? (rest.dropWhile isNamePart))
    else none
  | _ => none

/-- The path behind a root that ends there, or goes on with a dot or a bracket. -/
def root? (root : String) (content : List Char) : Option (List Char) := do
  let rest ← dropStart? root.toList content
  match rest with
  | [] | '.' :: _ | '[' :: _ => some rest
  | _ => none

/-- The digits of an index in brackets behind `$json` or `json`, and the path behind them. -/
def indexed? (content : List Char) : Option (List Char × List Char) := do
  let body := match content with
    | '$' :: rest => rest
    | _ => content
  let rest := skipBlanks (← dropStart? "json[".toList body)
  let digits := rest.takeWhile Number.isDigit
  if digits.isEmpty then none
  else return (digits, ← afterBracket? (rest.dropWhile Number.isDigit))

/-- The reference that trimmed content stands for. An index too large for a size is none. -/
def parse? (content : List Char) : Option Reference :=
  match node? content with
  | some r => some r
  | none =>
    match root? "$vars" content, root? "$workflow" content, root? "$execution" content with
    | some path, _, _ => some (.vars path)
    | _, some path, _ => some (.workflow path)
    | _, _, some path => some (.execution path)
    | _, _, _ =>
      match indexed? content with
      | some (digits, path) => (unsigned? 10 Json.sizeBound digits).map (.jsonIndex · path)
      | none =>
        match root? "$json" content, root? "json" content with
        | some path, _ => some (.json path)
        | _, some path => some (.json path)
        | _, _ => if content = "$itemIndex".toList then some .itemIndex else none

/-- The value of a reference. An item that is not an array counts as an array of one. -/
def resolve? (r : Reference) (item : Json) (ctx : Option Context) : Option Json :=
  match r with
  | .node name path => do Path.lookup (← (← ctx).node.get? name) path
  | .vars path => do Path.lookupIn (← ctx).vars path
  | .workflow path => do Path.lookup (← ctx).workflow path
  | .execution path => do Path.lookup (← ctx).execution path
  | .jsonIndex index path =>
    match item with
    | .array items => do Path.lookup (← items[index]?) path
    | other => if index = 0 then Path.lookup other path else none
  | .json path => Path.lookup item path
  | .itemIndex => some (.ofNat ((ctx.map (·.itemIndex)).getD 0))

end Reference

end Workflow
