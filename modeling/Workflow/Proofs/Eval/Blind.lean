import Workflow.Evaluate
import Workflow.Proofs.Fields

/-! What cannot see a root of the context: expressions in which no name stands for it, and values
whose functions are made of such expressions. -/
namespace Workflow

/-- The roots of a context. -/
inductive ContextRoot where
  | execution
  | itemIndex
  | json
  | node
  | vars
  | workflow
  deriving Repr, DecidableEq

namespace ContextRoot

/-- All roots, in the order of their names. -/
def all : List ContextRoot :=
  [execution, itemIndex, json, node, vars, workflow]

/-- The name under which a root stands in a context. -/
def key : ContextRoot → String
  | execution => "$execution"
  | itemIndex => "$itemIndex"
  | json => "$json"
  | node => "$node"
  | vars => "$vars"
  | workflow => "$workflow"

/-- The names by which expressions can get at a root: its own, another one that stands for it, and
those of the functions that look at it. -/
def names : ContextRoot → List String
  | json => ["$json", "json"]
  | node => ["$node", "isExecuted", "hasData", "getNodeData", "firstExecuted"]
  | r => [r.key]

/-- What a context has as a root. -/
def value (ctx : Context) : ContextRoot → Json
  | execution => ctx.execution
  | itemIndex => .ofNat ctx.itemIndex
  | json => ctx.json
  | node => ctx.node.toJson
  | vars => .object ctx.vars
  | workflow => ctx.workflow

end ContextRoot

namespace Expr

mutual

/-- The names that stand in an expression, wherever they do; parameters and properties are none. -/
def names : Expr → List String
  | .literal _ => []
  | .template fragments => fragmentNames fragments
  | .name x => [x]
  | .array items => itemNames items
  | .object entries => entryNames entries
  | .member e _ _ => names e
  | .index e key _ => names e ++ names key
  | .call e args _ => names e ++ itemNames args
  | .construct e args => names e ++ itemNames args
  | .unary _ e => names e
  | .binary _ left right => names left ++ names right
  | .logical _ left right => names left ++ names right
  | .conditional test consequent alternate => names test ++ (names consequent ++ names alternate)
  | .arrow _ body => names body
termination_by structural e => e

def itemNames : List Expr → List String
  | [] => []
  | e :: rest => names e ++ itemNames rest
termination_by structural items => items

def entryNames : List (String × Expr) → List String
  | [] => []
  | (_, e) :: rest => names e ++ entryNames rest
termination_by structural entries => entries

def fragmentNames : List Fragment → List String
  | [] => []
  | .text _ :: rest => fragmentNames rest
  | .hole e :: rest => names e ++ fragmentNames rest
termination_by structural fragments => fragments

end

end Expr

/-- None of the names is one of the root. -/
def ContextRoot.Unnamed (r : ContextRoot) (names : List String) : Prop :=
  ∀ x ∈ names, x ∉ r.names

theorem ContextRoot.unnamed_append {r : ContextRoot} {names more : List String} :
    r.Unnamed (names ++ more) ↔ r.Unnamed names ∧ r.Unnamed more :=
  List.forall_mem_append

namespace Eval

/-- Whether a function looks at the outputs of nodes. -/
def Native.isHelper : Native → Bool
  | nodeHelper _ => true
  | _ => false

variable (r : ContextRoot)

mutual

/-- A value in which no function can see the root. -/
def Value.Blind : Value → Prop
  | .array _ items => BlindItems items
  | .object _ entries => BlindEntries entries
  | .func f => f.Blind
  | _ => True

def Func.Blind : Func → Prop
  | .native f => f.isHelper = true → r ≠ .node
  | .arrayMethod _ items _ => BlindItems items
  | .closure _ body env => r.Unnamed body.names ∧ BlindEntries env
  | _ => True

def BlindItems : List Value → Prop
  | [] => True
  | v :: rest => v.Blind ∧ BlindItems rest

def BlindEntries : List (String × Value) → Prop
  | [] => True
  | (_, v) :: rest => v.Blind ∧ BlindEntries rest

end

/-- The value of a chain is blind, if it has one. -/
abbrev Link.Blind (link : Link) : Prop :=
  ∀ v ∈ link, v.Blind r

variable {r}

theorem blindItems_iff {items : List Value} : BlindItems r items ↔ ∀ v ∈ items, v.Blind r := by
  induction items with
  | nil => exact ⟨fun _ => List.forall_mem_nil _, fun _ => trivial⟩
  | cons v rest ih =>
    rw [List.forall_mem_cons, ← ih]
    rfl

theorem blindEntries_iff {entries : List (String × Value)} :
    BlindEntries r entries ↔ ∀ e ∈ entries, e.2.Blind r := by
  induction entries with
  | nil => exact ⟨fun _ => List.forall_mem_nil _, fun _ => trivial⟩
  | cons e rest ih =>
    rw [List.forall_mem_cons, ← ih]
    rfl

theorem blind_array {mark : Mark} {items : List Value} :
    (Value.array mark items).Blind r ↔ ∀ v ∈ items, v.Blind r :=
  blindItems_iff

theorem blind_object {mark : Mark} {entries : List (String × Value)} :
    (Value.object mark entries).Blind r ↔ ∀ e ∈ entries, e.2.Blind r :=
  blindEntries_iff

theorem blind_none : Link.Blind r none :=
  fun v hv => absurd hv (Option.not_mem_none v)

theorem blind_of_getElem? {items : List Value} (h : ∀ v ∈ items, v.Blind r) (i : Nat) :
    (items[i]?.getD .undefined).Blind r := by
  cases hi : items[i]? with
  | none => trivial
  | some v => exact h v (List.mem_of_getElem? hi)

theorem blind_arg {args : List Value} (h : ∀ v ∈ args, v.Blind r) (i : Nat) :
    (Value.arg args i).Blind r := by
  unfold Value.arg
  rw [List.getD_eq_getElem?_getD]
  exact blind_of_getElem? h i

theorem blind_of_lookup {entries : List (String × Value)} (h : ∀ e ∈ entries, e.2.Blind r)
    {key : String} {v : Value} (hv : entries.lookup key = some v) : v.Blind r :=
  h (key, v) (Fields.mem_of_lookup hv)

theorem blind_ofList {entries : List (String × Value)} (h : ∀ e ∈ entries, e.2.Blind r) :
    ∀ e ∈ Fields.ofList entries, e.2.Blind r := by
  have hall (m : Fields Value) (hm : ∀ e ∈ m, e.2.Blind r) :
      ∀ e ∈ Fields.insertAll m entries, e.2.Blind r := by
    induction entries generalizing m with
    | nil => exact hm
    | cons f rest ih =>
      obtain ⟨hf, hrest⟩ := List.forall_mem_cons.1 h
      refine ih hrest _ fun e he => ?_
      rcases Fields.mem_insert he with rfl | he
      · exact hf
      · exact hm e he
  exact hall [] (List.forall_mem_nil _)

mutual

/-- Plain data has no functions. -/
theorem blind_ofJson (mark : Mark) (j : Json) : (Value.ofJson mark j).Blind r := by
  cases j with
  | array items => exact blind_array.2 (blind_ofJsonItems mark 0 [] items (List.forall_mem_nil _))
  | object entries =>
    exact blind_object.2 (blind_ofJsonEntries mark 0 [] entries (List.forall_mem_nil _))
  | null => trivial
  | bool b => trivial
  | number n => trivial
  | string s => trivial

theorem blind_ofJsonItems (mark : Mark) (i : Nat) (done : List Value) (items : List Json)
    (hd : ∀ v ∈ done, v.Blind r) : ∀ v ∈ Value.ofJsonItems mark i done items, v.Blind r := by
  cases items with
  | nil => exact fun v hv => hd v (List.mem_reverse.1 hv)
  | cons j rest =>
    have hj : (Value.ofJson (mark.part i) j).Blind r := blind_ofJson (mark.part i) j
    exact blind_ofJsonItems mark (i + 1) _ rest (List.forall_mem_cons.2 ⟨hj, hd⟩)

theorem blind_ofJsonEntries (mark : Mark) (i : Nat) (done : List (String × Value))
    (entries : List (String × Json)) (hd : ∀ e ∈ done, e.2.Blind r) :
    ∀ e ∈ Value.ofJsonEntries mark i done entries, e.2.Blind r := by
  cases entries with
  | nil => exact fun e he => hd e (List.mem_reverse.1 he)
  | cons f rest =>
    obtain ⟨key, j⟩ := f
    have hj : (Value.ofJson (mark.part i) j).Blind r := blind_ofJson (mark.part i) j
    exact blind_ofJsonEntries mark (i + 1) _ rest (List.forall_mem_cons.2 ⟨hj, hd⟩)

end

theorem blind_mapIdx {items : List Value} (h : ∀ v ∈ items, v.Blind r) (key : Nat → String) :
    ∀ e ∈ items.mapIdx fun i v => (key i, v), e.2.Blind r := by
  intro e he
  obtain ⟨i, hi, rfl⟩ := List.mem_mapIdx.1 he
  exact h _ (List.getElem_mem hi)

theorem blind_characters (s : String) : ∀ v ∈ characters s, v.Blind r := by
  intro v hv
  obtain ⟨c, -, rfl⟩ := List.mem_map.1 hv
  trivial

theorem blind_orMinusOne (i : Option Nat) : (orMinusOne i).Blind r := by
  cases i
  all_goals trivial

theorem blind_sliceOf {items : List Value} (h : ∀ v ∈ items, v.Blind r) (args : List Value) :
    ∀ v ∈ sliceOf items args, v.Blind r :=
  fun v hv => h v (List.mem_of_mem_drop (List.mem_of_mem_take hv))

theorem blind_entriesOf {v : Value} (h : v.Blind r) : ∀ e ∈ entriesOf v, e.2.Blind r := by
  unfold entriesOf
  split
  · exact blind_object.1 h
  · exact blind_mapIdx (blind_array.1 h) _
  · exact blind_mapIdx (blind_characters _) _
  · exact List.forall_mem_nil _

theorem blind_pair {v : Value} (h : v.Blind r) {e : String × Value} (he : pair? v = some e) :
    e.2.Blind r := by
  unfold pair? at he
  split at he
  · cases he
    exact blind_arg (blind_array.1 h) 1
  · contradiction

theorem blind_ofLists (mark : Mark) {lists : List (List Value)}
    (h : ∀ items ∈ lists, ∀ v ∈ items, v.Blind r) : ∀ v ∈ Value.ofLists mark lists, v.Blind r := by
  intro v hv
  obtain ⟨i, hi, rfl⟩ := List.mem_mapIdx.1 hv
  exact blind_array.2 (h _ (List.getElem_mem hi))

/-- What holds of the items of arrays of which it holds survives flattening. -/
theorem forall_flattenOnto {p : Value → Prop}
    (hp : ∀ mark items, p (.array mark items) → ∀ v ∈ items, p v) (depth : Nat)
    {done items : List Value} (hd : ∀ v ∈ done, p v) (hi : ∀ v ∈ items, p v) :
    ∀ v ∈ flattenOnto depth done items, p v := by
  induction depth generalizing done items with
  | zero =>
    intro v hv
    rcases List.mem_append.1 hv with hv | hv
    · exact hi v (List.mem_reverse.1 hv)
    · exact hd v hv
  | succ depth ih =>
    unfold flattenOnto
    induction items generalizing done with
    | nil => exact hd
    | cons w items ihi =>
      obtain ⟨hw, hi⟩ := List.forall_mem_cons.1 hi
      refine ihi ?_ hi
      dsimp only
      split
      · exact ih hd (hp _ _ hw)
      · exact List.forall_mem_cons.2 ⟨hw, hd⟩

theorem blind_flattenOnto (depth : Nat) {done items : List Value} (hd : ∀ v ∈ done, v.Blind r)
    (hi : ∀ v ∈ items, v.Blind r) : ∀ v ∈ flattenOnto depth done items, v.Blind r :=
  forall_flattenOnto (fun _ _ => blind_array.1) depth hd hi

/-- Among the global functions, those that look at the outputs of nodes have names of their own. -/
theorem blind_global {name : String} (hn : name ∉ r.names) {v : Value}
    (hv : global? name = some v) : v.Blind r := by
  have hg : ∀ e ∈ Native.globals, e.2.isHelper = true → e.1 ∈ ContextRoot.node.names := by decide
  unfold global? at hv
  split at hv
  · cases hv
    trivial
  · obtain ⟨f, hf, rfl⟩ := Option.map_eq_some_iff.1 hv
    rintro hh rfl
    exact hn (hg _ (Fields.mem_of_lookup hf) hh)

/-- No global object has a function that looks at the outputs of nodes. -/
theorem blind_spaceMember (s : Namespace) (key : String) : (spaceMember s key).Blind r := by
  have hm : ∀ e ∈ Native.members s, e.2.isHelper = false := by
    cases s
    all_goals decide
  unfold spaceMember
  split
  · trivial
  · split
    · rename_i f hf
      intro hh
      rw [hm _ (Fields.mem_of_lookup hf)] at hh
      contradiction
    · trivial

theorem blind_bind? {α : Type} {table : List (String × α)} {key : String} {method : α → Func}
    (h : ∀ m, (method m).Blind r) : (bind? table key method).Blind r := by
  unfold bind?
  split
  · exact h _
  · trivial

theorem blind_arrayMember {mark : Mark} {items : List Value} (h : ∀ v ∈ items, v.Blind r)
    (key : String) : (arrayMember mark items key).Blind r := by
  unfold arrayMember
  split
  · rw [List.getD_eq_getElem?_getD]
    exact blind_of_getElem? h _
  · split
    · trivial
    · exact blind_bind? fun m => blindItems_iff.2 h

theorem blind_stringMember (s key : String) : (stringMember s key).Blind r := by
  unfold stringMember
  split
  · split
    · trivial
    · trivial
  · split
    · trivial
    · exact blind_bind? fun m => trivial

theorem blind_momentField (m : Time.Moment) (f : MomentField) : (momentField m f).Blind r := by
  cases f
  all_goals trivial

theorem blind_member {v : Value} (h : v.Blind r) (key : String) : (member v key).Blind r := by
  cases v with
  | object mark entries =>
    show ((Fields.get? entries key).getD .undefined).Blind r
    cases he : Fields.get? entries key with
    | none => trivial
    | some w => exact blind_of_lookup (blind_object.1 h) he
  | array mark items => exact blind_arrayMember (blind_array.1 h) key
  | string s => exact blind_stringMember s key
  | number x => exact blind_bind? fun m => trivial
  | bool b => exact blind_bind? fun m => trivial
  | date t => exact blind_bind? fun m => trivial
  | moment m =>
    unfold member
    dsimp only
    split
    · exact blind_momentField m _
    · exact blind_bind? fun m => trivial
  | space s => exact blind_spaceMember s key
  | undefined => trivial
  | null => trivial
  | func f => trivial

/-- The value of a name is that of a variable or a root, or else it is a point in time, a number or a
global. -/
theorem lookup?_cases {s : Setting} {env : Env} {name : String} {v : Value}
    (h : lookup? s env name = some v) :
    (name, v) ∈ env ∨ named? s.roots name = some v ∨ v = .moment (.ofUtc s.now) ∨
      v = .moment (startOfDay (.ofUtc s.now)) ∨ (∃ x, v = .number x) ∨ (∃ space, v = .space space) ∨
        ∃ f, v = .func (.native f) := by
  unfold lookup? at h
  split at h
  · rename_i w hw
    cases h
    exact .inl (Fields.mem_of_lookup hw)
  · split at h
    · rename_i w hw
      cases h
      exact .inr (.inl hw)
    · split at h
      · cases h
        exact .inr (.inr (.inl rfl))
      · cases h
        exact .inr (.inr (.inr (.inl rfl)))
      · cases h
        exact .inr (.inr (.inr (.inr (.inl ⟨_, rfl⟩))))
      · cases h
        exact .inr (.inr (.inr (.inr (.inl ⟨_, rfl⟩))))
      · unfold global? at h
        split at h
        · cases h
          exact .inr (.inr (.inr (.inr (.inr (.inl ⟨_, rfl⟩)))))
        · obtain ⟨f, -, rfl⟩ := Option.map_eq_some_iff.1 h
          exact .inr (.inr (.inr (.inr (.inr (.inr ⟨f, rfl⟩)))))

/-- A function that looks at the outputs of nodes returns one of them, an argument, or a value
without parts. -/
theorem nodeHelper_apply_cases (h : NodeHelper) (nodes : Value) (args : List Value) :
    (∃ b, h.apply nodes args = .bool b) ∨ h.apply nodes args = .undefined ∨
      h.apply nodes args = Value.arg args 1 ∨
        ∃ mark entries name, nodes = .object mark entries ∧
          Fields.get? entries name = some (h.apply nodes args) := by
  have houtput {name : String} {v : Value} (hv : nodeOutput? nodes name = some v) :
      ∃ mark entries name, nodes = .object mark entries ∧ Fields.get? entries name = some v := by
    unfold nodeOutput? at hv
    split at hv
    · exact ⟨_, _, _, rfl, hv⟩
    · contradiction
  unfold NodeHelper.apply
  cases h with
  | isExecuted => exact Or.inl ⟨_, rfl⟩
  | hasData => exact Or.inl ⟨_, rfl⟩
  | getNodeData =>
    dsimp only
    split
    · rename_i v hv
      split
      · exact Or.inr (Or.inr (Or.inl rfl))
      · exact Or.inr (Or.inr (Or.inr (houtput hv)))
    · exact Or.inr (Or.inr (Or.inl rfl))
  | firstExecuted =>
    dsimp only
    cases hf : (nodeNames args).findSome? (nodeOutput? nodes) with
    | none => exact Or.inr (Or.inl rfl)
    | some v =>
      obtain ⟨name, -, hv⟩ := List.exists_of_findSome?_eq_some hf
      exact Or.inr (Or.inr (Or.inr (houtput hv)))

theorem blind_nodeHelper {h : NodeHelper} {nodes : Value} {args : List Value} (hn : nodes.Blind r)
    (ha : ∀ v ∈ args, v.Blind r) : (h.apply nodes args).Blind r := by
  rcases nodeHelper_apply_cases h nodes args with ⟨b, he⟩ | he | he | ⟨mark, entries, name, rfl, he⟩
  · rw [he]
    trivial
  · rw [he]
    trivial
  · rw [he]
    exact blind_arg ha 1
  · exact blind_of_lookup (blind_object.1 hn) he

end Eval

end Workflow
