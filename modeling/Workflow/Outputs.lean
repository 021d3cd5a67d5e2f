import Workflow.Context

/-! What a node can see of the nodes before it in a graph of nodes and connections. -/
namespace Workflow

structure Node where
  id : String
  name : String := ""
  kind : String := ""
  parameters : Json := .null
  sample : Option Json := none
  samplePinned : Bool := false

namespace Node

/-- The sample output that stands for a run of the node. -/
def pinnedData? (n : Node) : Option Json :=
  if n.samplePinned then n.sample else none

/-- The name, unless it is empty. -/
def displayName? (n : Node) : Option String :=
  if n.name = "" then none else some n.name

def ofJson? (v : Json) : Option Node := do
  match ← v.record? ["id", "name", "type", "parameters", "mockData", "mockDataPinned"] with
  | [id, name, kind, parameters, sample, pinned] =>
    return {
      id := ← Json.required Json.asString? id
      name := ← Json.withDefault "" Json.asString? name
      kind := ← Json.withDefault "" Json.asString? kind
      parameters := parameters.getD .null
      sample := ← Json.optional some sample
      samplePinned := ← Json.withDefault false Json.asBool? pinned }
  | _ => none

end Node

structure Connection where
  source : String
  target : String

def Connection.ofJson? (v : Json) : Option Connection := do
  match ← v.record? ["sourceNodeId", "targetNodeId"] with
  | [source, target] =>
    return ⟨← Json.required Json.asString? source, ← Json.required Json.asString? target⟩
  | _ => none

/-- A request for the outputs that `target` can see. -/
structure OutputRequest where
  target : String
  nodes : List Node
  connections : List Connection
  items : Option (List Json) := none
  overrides : Option (Fields Json) := none

/-- Where the output of one node before the target comes from. -/
inductive OutputSource where
  | pinned (node : String) (data : Json)
  | items (node : String) (items : List Json)

/-- Where all outputs come from: given by the caller, or gathered from the graph. -/
inductive OutputStrategy where
  | overrides (entries : Fields Json)
  | gathered (sources : List OutputSource)

namespace OutputRequest

/-- The first node with the given id. -/
def node? (r : OutputRequest) (id : String) : Option Node :=
  r.nodes.find? (·.id = id)

def name? (r : OutputRequest) (id : String) : Option String :=
  (r.node? id).bind Node.displayName?

/-- The connections that end at the target. -/
def incoming (r : OutputRequest) : List Connection :=
  r.connections.filter (·.target = r.target)

/-- The pinned data of the nodes at the start of the incoming connections. -/
def pinnedSources (r : OutputRequest) : List OutputSource :=
  r.incoming.filterMap fun c => do return .pinned c.source (← (← r.node? c.source).pinnedData?)

/-- Overrides win; else pinned data; else the items, if a single connection brings any. -/
def strategy (r : OutputRequest) : OutputStrategy :=
  match r.overrides with
  | some entries => .overrides entries
  | none =>
    match r.pinnedSources, r.incoming, r.items with
    | [], [only], some (item :: items) => .gathered [.items only.source (item :: items)]
    | sources, _, _ => .gathered sources

end OutputRequest

/-- Items without their `json` envelopes; a single one stands for itself. -/
def unwrapItems (items : List Json) : Json :=
  match items.map fun item => (item.field? "json").getD item with
  | [only] => only
  | unwrapped => .array unwrapped

namespace OutputSource

def node : OutputSource → String
  | .pinned node _ => node
  | .items node _ => node

def value : OutputSource → Json
  | .pinned _ data => data
  | .items _ received => unwrapItems received

end OutputSource

namespace OutputRequest

/-- Overrides keep their keys, and nodes among those keys are also reached by name. -/
def outputsOfOverrides (r : OutputRequest) (entries : Fields Json) : NodeOutputs :=
  entries.foldl (fun outputs (key, value) =>
    match r.name? key with
    | some name => (outputs.addAlias name value).1
    | none => outputs) ⟨Fields.ofList entries⟩

def outputsOfSources (r : OutputRequest) (sources : List OutputSource) : NodeOutputs :=
  sources.foldl (fun outputs s => outputs.insertAliased s.node (r.name? s.node) s.value) {}

/-- The outputs that the target can see, under ids and names. -/
def outputs (r : OutputRequest) : NodeOutputs :=
  match r.strategy with
  | .overrides entries => r.outputsOfOverrides entries
  | .gathered sources => r.outputsOfSources sources

end OutputRequest

end Workflow
