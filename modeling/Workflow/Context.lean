import Workflow.Json.Decode
import Workflow.Json.Reread

/-! The data that a placeholder can refer to. -/
namespace Workflow

/-- Outputs of other nodes, under their ids and names. -/
structure NodeOutputs where
  entries : Fields Json := []

namespace NodeOutputs

def get? (outputs : NodeOutputs) (key : String) : Option Json :=
  Fields.get? outputs.entries key

def has (outputs : NodeOutputs) (key : String) : Bool :=
  Fields.has outputs.entries key

def size (outputs : NodeOutputs) : Nat :=
  outputs.entries.length

def isEmpty (outputs : NodeOutputs) : Bool :=
  outputs.entries.isEmpty

def keys (outputs : NodeOutputs) : List String :=
  Fields.keys outputs.entries

def toJson (outputs : NodeOutputs) : Json :=
  .object outputs.entries

/-- Puts a value under an explicit key. -/
def insert (outputs : NodeOutputs) (key : String) (value : Json) : NodeOutputs :=
  ⟨Fields.insert outputs.entries key value⟩

/-- Puts a value under another name of its node, unless something is there already; says whether it
did. -/
def addAlias (outputs : NodeOutputs) (name : String) (value : Json) : NodeOutputs × Bool :=
  if outputs.has name then (outputs, false) else (outputs.insert name value, true)

/-- Puts a value under the id of its node, and first under its name unless that is empty, equal to
the id or taken. -/
def insertAliased (outputs : NodeOutputs) (id : String) (name : Option String) (value : Json) :
    NodeOutputs :=
  let named := match name with
    | some name =>
      if name = "" ∨ name = id then outputs else (outputs.addAlias name value).1
    | none => outputs
  named.insert id value

end NodeOutputs

/-- What one resolution can see. -/
structure Context where
  json : Json := .null
  node : NodeOutputs := {}
  vars : Fields Json := []
  workflow : Json := .null
  execution : Json := .null
  itemIndex : Nat := 0

namespace Context

def forItem (item : Json) : Context :=
  { json := item }

def withJson (ctx : Context) (item : Json) : Context :=
  { ctx with json := item }

def ofJson? (v : Json) : Option Context := do
  let fields ← v.record? ["$json", "$node", "$vars", "$workflow", "$execution", "$itemIndex"]
  match fields with
  | [json, node, vars, workflow, execution, itemIndex] =>
    return {
      json := json.getD .null
      node := ⟨← Json.withDefault [] Json.asObject? node⟩
      vars := ← Json.withDefault [] Json.asObject? vars
      workflow := workflow.getD .null
      execution := execution.getD .null
      itemIndex := ← Json.withDefault 0 (Json.asNat? Json.sizeBound) itemIndex }
  | _ => none

/-- The roots by the names that expressions give them. -/
def roots (ctx : Context) : Fields Json :=
  [("$execution", ctx.execution), ("$itemIndex", .ofNat ctx.itemIndex), ("$json", ctx.json),
    ("$node", ctx.node.toJson), ("$vars", .object ctx.vars), ("$workflow", ctx.workflow)]

/-- The roots detached from the context: each is read back from its text, in which all of them
stand in one object. -/
def isolate? (ctx : Context) : Option (Fields Json) :=
  Json.rereadEntries? (Json.maxNesting - 1) ctx.roots

end Context

end Workflow
