import Workflow.Json.Basic

/-! TOML data, how the lines of a document build its tables, and the data as JSON for the readers of
typed data. -/
namespace Workflow.Toml

/-- How a table came about: on the way to another one, by a dotted key, by a header of its own, or
as a value. -/
inductive Form where
  | implied
  | dotted
  | headed
  | inline
  deriving Repr, DecidableEq

/-- Values. Truth values and floating numbers are not told apart, and points in time neither. A list
of tables that were opened one after another has the last one first. -/
inductive Value where
  | integer (n : Int)
  | text (s : String)
  | other
  | stamp
  | array (items : List Value)
  | table (form : Form) (entries : List (String × Value))
  | tables (items : List (List (String × Value)))
  deriving Inhabited

abbrev Table :=
  List (String × Value)

/-- A change of a table, which can be refused. -/
abbrev Change :=
  Form → Table → Option Table

/-- Puts the outcome of `f` for what is under a key in its place. -/
def alter (key : String) (f : Option Value → Option Value) : Table → Option Table
  | [] => (f none).map fun v => [(key, v)]
  | (k, v) :: rest =>
    if k = key then (f (some v)).map fun v => (k, v) :: rest
    else (alter key f rest).map ((k, v) :: ·)

/-- Whether a path whose missing tables get the form `making` can lead through a table. -/
def leadsThrough (making made : Form) : Bool :=
  match making, made with
  | _, .inline => false
  | .dotted, .headed => false
  | _, _ => true

/-- Applies a change where a path leads to, and makes the tables that are missing on the way. -/
def descend (making : Form) (change : Change) : (path : List String) → Change
  | [], form, table => change form table
  | key :: path, _, table =>
    alter key (fun
      | none => (descend making change path making []).map (.table making)
      | some (.table form inner) =>
        if leadsThrough making form then
          (descend making change path form inner).map (.table form)
        else none
      | some (.tables (last :: earlier)) =>
        (descend making change path .headed last).map fun t => .tables (t :: earlier)
      | some _ => none) table

/-- Adds a value under a new key. -/
def addNew (key : String) (v : Value) : Table → Option Table :=
  alter key fun
    | none => some v
    | some _ => none

/-- Adds a value under a dotted key. Only tables that dotted keys made can grow by them. -/
def addPair (path : List String) (key : String) (v : Value) : Change :=
  descend .dotted (fun form table =>
    if path.isEmpty || form = .dotted then addNew key v table else none) path

/-- Opens the table of a header, which no header or dotted key has opened before. -/
def openTable (path : List String) (key : String) (root : Table) : Option Table :=
  descend .implied (fun _ => alter key fun
    | none => some (.table .headed [])
    | some (.table .implied inner) => some (.table .headed inner)
    | some _ => none) path .headed root

/-- Opens the next table of a list. -/
def openNext (path : List String) (key : String) (root : Table) : Option Table :=
  descend .implied (fun _ => alter key fun
    | none => some (.tables [[]])
    | some (.tables items) => some (.tables ([] :: items))
    | some _ => none) path .headed root

mutual

/-- Truth values and floating numbers become a truth value; points in time are read like tables with
no entry that anyone asks for. -/
def Value.toJson : Value → Json
  | .integer n => .ofInt n
  | .text s => .string s
  | .other => .bool true
  | .stamp => .object []
  | .array items => .array (listJson items)
  | .table _ entries => .ofEntries (entriesJson entries)
  | .tables items => .array (tablesJson items).reverse
termination_by structural v => v

def listJson : List Value → List Json
  | [] => []
  | v :: rest => v.toJson :: listJson rest
termination_by structural items => items

def entriesJson : List (String × Value) → List (String × Json)
  | [] => []
  | (key, v) :: rest => (key, v.toJson) :: entriesJson rest
termination_by structural entries => entries

def tablesJson : List (List (String × Value)) → List Json
  | [] => []
  | entries :: rest => .ofEntries (entriesJson entries) :: tablesJson rest
termination_by structural items => items

end

end Workflow.Toml
