import Workflow.Outputs
import Workflow.Proofs.Outputs.Writes

/-! Which outputs a node sees: those that the caller gives, else the pinned data of the nodes before
it, else its own items; and that the order of the connections makes no difference to them unless
names clash. -/
namespace Workflow

/-- The first result of `f` in a list, if all of its results are the same. -/
theorem findSome?_eq_some_iff_mem {α β : Type} {f : α → Option β} {l : List α}
    (h : ∀ a ∈ l, ∀ b ∈ l, ∀ v w, f a = some v → f b = some w → v = w) {v : β} :
    l.findSome? f = some v ↔ ∃ a ∈ l, f a = some v := by
  refine ⟨List.exists_of_findSome?_eq_some, ?_⟩
  rintro ⟨a, ha, hv⟩
  cases hw : l.findSome? f with
  | none =>
    rw [List.findSome?_eq_none_iff.1 hw a ha] at hv
    exact absurd hv (by simp)
  | some w =>
    obtain ⟨b, hb, hbw⟩ := List.exists_of_findSome?_eq_some hw
    rw [h a ha b hb v w hv hbw]

theorem findSome?_perm {α β : Type} {f : α → Option β} {l l' : List α} (hp : l.Perm l')
    (h : ∀ a ∈ l, ∀ b ∈ l, ∀ v w, f a = some v → f b = some w → v = w) :
    l.findSome? f = l'.findSome? f := by
  have h' : ∀ a ∈ l', ∀ b ∈ l', ∀ v w, f a = some v → f b = some w → v = w :=
    fun a ha b hb => h a (hp.mem_iff.2 ha) b (hp.mem_iff.2 hb)
  apply Option.ext
  intro v
  rw [findSome?_eq_some_iff_mem h, findSome?_eq_some_iff_mem h']
  simp only [hp.mem_iff]

theorem findSome?_congr {α β : Type} {f g : α → Option β} {l : List α}
    (h : ∀ a ∈ l, f a = g a) : l.findSome? f = l.findSome? g := by
  induction l with
  | nil => rfl
  | cons a l ih =>
    obtain ⟨ha, hl⟩ := List.forall_mem_cons.1 h
    rw [List.findSome?_cons, List.findSome?_cons, ha, ih hl]

theorem findSome?_filterMap {α β γ : Type} (f : α → Option β) (g : β → Option γ) (l : List α) :
    (l.filterMap f).findSome? g = l.findSome? fun a => (f a).bind g := by
  induction l with
  | nil => rfl
  | cons a l ih =>
    rw [List.filterMap_cons, List.findSome?_cons]
    cases f a with
    | none => exact ih
    | some b =>
      rw [List.findSome?_cons, Option.bind_some, ih]

theorem Node.displayName?_eq_some_iff {n : Node} {name : String} :
    n.displayName? = some name ↔ n.name = name ∧ name ≠ "" := by
  unfold displayName?
  split
  · rename_i he
    constructor
    · intro h
      exact absurd h (by simp)
    · rintro ⟨rfl, hne⟩
      exact absurd he hne
  · rename_i hne
    rw [Option.some.injEq]
    constructor
    · rintro rfl
      exact ⟨rfl, hne⟩
    · exact And.left

namespace OutputRequest

/-- The pinned data of the first node with the given id. -/
def pinned? (r : OutputRequest) (id : String) : Option Json :=
  (r.node? id).bind Node.pinnedData?

theorem name?_ne_empty {r : OutputRequest} {id name : String} (h : r.name? id = some name) :
    name ≠ "" := by
  obtain ⟨n, -, hn⟩ := Option.bind_eq_some_iff.1 h
  exact (Node.displayName?_eq_some_iff.1 hn).2

/-- Overrides keep their keys; any other key is the name of an overridden node, and has the value of
the least override with that name. -/
structure FromOverrides (r : OutputRequest) (entries : Fields Json) : Prop where
  keeps : ∀ key v, Fields.get? entries key = some v → r.outputs.get? key = some v
  named : ∀ k, Fields.get? entries k = none →
    (r.outputs.has k = true ↔ ∃ key, Fields.has entries key = true ∧ r.name? key = some k)
  least : ∀ k, Fields.get? entries k = none → ∀ key v, Fields.get? entries key = some v →
    r.name? key = some k →
    (∀ other, Fields.has entries other = true → r.name? other = some k → key ≤ other) →
    r.outputs.get? k = some v

/-- Pinned data stands under the ids of its nodes; any other key has the data of the first
connection from a node of that name. -/
structure FromPinned (r : OutputRequest) : Prop where
  ids : ∀ c ∈ r.incoming, ∀ v, r.pinned? c.source = some v → r.outputs.get? c.source = some v
  names : ∀ k, (∀ c ∈ r.incoming, c.source = k → r.pinned? k = none) →
    r.outputs.get? k =
      r.incoming.findSome? fun c => if r.name? c.source = some k then r.pinned? c.source else none

/-- The items of a request with a single incoming connection, if there are any. -/
def FromItems (r : OutputRequest) (source : String) (items : List Json) : Prop :=
  r.incoming.map Connection.source = [source] ∧ r.items = some items ∧ items ≠ []

/-- Where the outputs of a request come from. -/
structure ByPrecedence (r : OutputRequest) : Prop where
  overrides : ∀ entries, r.overrides = some entries → r.FromOverrides entries
  pinned : r.overrides = none → (∃ c ∈ r.incoming, (r.pinned? c.source).isSome) → r.FromPinned
  items : r.overrides = none → (∀ c ∈ r.incoming, r.pinned? c.source = none) →
    ∀ source items, r.FromItems source items → ∀ k, r.outputs.get? k =
      if k = source ∨ r.name? source = some k then some (unwrapItems items) else none
  nothing : r.overrides = none → (∀ c ∈ r.incoming, r.pinned? c.source = none) →
    (∀ source items, ¬r.FromItems source items) → r.outputs = {}

/-- No two nodes with pinned data before the target have the same name. -/
def NamesApart (r : OutputRequest) : Prop :=
  ∀ c ∈ r.incoming, ∀ c' ∈ r.incoming, (r.pinned? c.source).isSome → (r.pinned? c'.source).isSome →
    ∀ name, r.name? c.source = some name → r.name? c'.source = some name → c.source = c'.source

theorem outputsOfOverrides_eq (r : OutputRequest) {entries : Fields Json}
    (h : Fields.Sorted entries) :
    r.outputsOfOverrides entries = NodeOutputs.applyAll ⟨entries⟩ (entries.filterMap fun e =>
      (r.name? e.1).map fun name => .addAlias name e.2) := by
  unfold outputsOfOverrides NodeOutputs.applyAll
  rw [Fields.ofList_of_sorted h, List.foldl_filterMap]
  congr 1
  funext outputs e
  obtain ⟨key, v⟩ := e
  dsimp only
  cases r.name? key with
  | none => rfl
  | some name => rfl

theorem outputsOfSources_eq (r : OutputRequest) (sources : List OutputSource) :
    r.outputsOfSources sources = NodeOutputs.applyAll {} (sources.map fun s =>
      .insertAliased s.node (r.name? s.node) s.value) := by
  unfold outputsOfSources NodeOutputs.applyAll
  rw [List.foldl_map]
  rfl

theorem pinnedSources_eq (r : OutputRequest) :
    r.pinnedSources = r.incoming.filterMap fun c =>
      (r.pinned? c.source).map (OutputSource.pinned c.source) := by
  unfold pinnedSources pinned?
  congr 1
  funext c
  cases r.node? c.source with
  | none => rfl
  | some n =>
    show (do return OutputSource.pinned c.source (← n.pinnedData?)) =
      n.pinnedData?.map (OutputSource.pinned c.source)
    cases n.pinnedData? with
    | none => rfl
    | some v => rfl

theorem get?_outputsOfOverrides (r : OutputRequest) {entries : Fields Json}
    (h : Fields.Sorted entries) (k : String) :
    (r.outputsOfOverrides entries).get? k =
      (Fields.get? entries k).or
        (entries.findSome? fun e => if r.name? e.1 = some k then some e.2 else none) := by
  rw [outputsOfOverrides_eq r h, NodeOutputs.get?_applyAll]
  congr 1
  · unfold NodeOutputs.lastExplicit?
    rw [List.findSome?_eq_none_iff.2, Option.none_or]
    · rfl
    · -- aliases are all that is written
      intro w hw
      obtain ⟨e, -, hw⟩ := List.mem_filterMap.1 (List.mem_reverse.1 hw)
      obtain ⟨name, -, rfl⟩ := Option.map_eq_some_iff.1 hw
      rfl
  · unfold NodeOutputs.firstOffered?
    rw [findSome?_filterMap]
    congr 1
    funext e
    cases r.name? e.1 with
    | none => rfl
    | some name =>
      show (if name = k then some e.2 else none) = _
      simp only [Option.some.injEq]

theorem fromOverrides {r : OutputRequest} {entries : Fields Json}
    (ho : r.overrides = some entries) (h : Fields.Sorted entries) : r.FromOverrides entries := by
  have hget (k : String) := get?_outputsOfOverrides r h k
  have hout : r.outputs = r.outputsOfOverrides entries := by
    unfold outputs strategy
    rw [ho]
  rw [← hout] at hget
  refine ⟨fun key v hv => ?_, fun k hk => ?_, fun k hk key v hv hname hleast => ?_⟩
  · rw [hget, hv, Option.some_or]
  · rw [NodeOutputs.has_eq_isSome, hget, hk, Option.none_or, List.findSome?_isSome_iff]
    constructor
    · rintro ⟨e, he, hsome⟩
      have hname : r.name? e.1 = some k := by
        by_contra hne
        rw [if_neg hne] at hsome
        exact absurd hsome (by simp)
      refine ⟨e.1, ?_, hname⟩
      have hv : Fields.get? entries e.1 = some e.2 := Fields.get?_eq_some_of_mem h he
      exact Option.isSome_of_eq_some hv
    · rintro ⟨key, hkey, hname⟩
      obtain ⟨v, hv⟩ := Option.isSome_iff_exists.1 hkey
      exact ⟨(key, v), Fields.mem_of_lookup hv, by rw [if_pos hname]; rfl⟩
  · rw [hget, hk, Option.none_or]
    cases hfound : entries.findSome? fun e => if r.name? e.1 = some k then some e.2 else none with
    | none =>
      have hnone := List.findSome?_eq_none_iff.1 hfound (key, v) (Fields.mem_of_lookup hv)
      rw [if_pos hname] at hnone
      exact absurd hnone (by simp)
    | some w =>
      obtain ⟨before, e, after, rfl, he, hbefore⟩ := List.findSome?_eq_some_iff.1 hfound
      have hnamed : r.name? e.1 = some k := by
        by_contra hne
        rw [if_neg hne] at he
        exact absurd he (by simp)
      rw [if_pos hnamed] at he
      -- the least override of that name is neither before nor behind the one that was found
      rcases List.mem_append.1 (Fields.mem_of_lookup hv) with hm | hm
      · have hnone := hbefore _ hm
        rw [if_pos hname] at hnone
        exact absurd hnone (by simp)
      · rcases List.mem_cons.1 hm with rfl | hm
        · exact he.symm
        · have hlt : e.1 < key :=
            (List.pairwise_cons.1 (List.pairwise_append.1 h).2.1).1 (key, v) hm
          have hmem : (e.1, e.2) ∈ before ++ e :: after := by simp
          have hhas : Fields.has (before ++ e :: after) e.1 = true :=
            Option.isSome_of_eq_some (Fields.get?_eq_some_of_mem h hmem)
          exact absurd hlt (String.not_lt.2 (hleast e.1 hhas hnamed))

/-- The writes that the pinned data of the incoming connections makes. -/
def pinnedWrites (r : OutputRequest) : List NodeOutputs.Write :=
  r.incoming.filterMap fun c =>
    (r.pinned? c.source).map (.insertAliased c.source (r.name? c.source))

theorem outputs_of_pinned {r : OutputRequest} (ho : r.overrides = none)
    (hp : ∃ c ∈ r.incoming, (r.pinned? c.source).isSome) :
    r.outputs = NodeOutputs.applyAll {} r.pinnedWrites := by
  have hne : r.pinnedSources ≠ [] := by
    obtain ⟨c, hc, hsome⟩ := hp
    obtain ⟨v, hv⟩ := Option.isSome_iff_exists.1 hsome
    rw [pinnedSources_eq]
    refine List.ne_nil_of_mem (a := .pinned c.source v) (List.mem_filterMap.2 ⟨c, hc, ?_⟩)
    rw [hv]
    rfl
  have hstrategy : r.strategy = .gathered r.pinnedSources := by
    unfold strategy
    rw [ho]
    dsimp only
    split
    · rename_i hnil _ _
      exact absurd hnil hne
    · rfl
  unfold outputs
  rw [hstrategy]
  dsimp only
  rw [outputsOfSources_eq, pinnedSources_eq, List.map_filterMap]
  congr 2
  funext c
  cases r.pinned? c.source with
  | none => rfl
  | some v => rfl

/-- What pinned data puts under a key explicitly is the pinned data of the node with that id. -/
theorem explicit?_pinned (r : OutputRequest) (c : Connection) (k : String) :
    ((r.pinned? c.source).map (NodeOutputs.Write.insertAliased c.source (r.name? c.source))).bind
      (NodeOutputs.Write.explicit? k) = if c.source = k then r.pinned? k else none := by
  cases hv : r.pinned? c.source with
  | none =>
    by_cases hk : c.source = k
    · rw [if_pos hk, ← hk, hv]
      rfl
    · rw [if_neg hk]
      rfl
  | some v =>
    show (if c.source = k then some v else none) = _
    by_cases hk : c.source = k
    · rw [if_pos hk, if_pos hk, ← hk, hv]
    · rw [if_neg hk, if_neg hk]

theorem lastExplicit?_pinned (r : OutputRequest) (k : String) :
    NodeOutputs.lastExplicit? {} r.pinnedWrites k =
      r.incoming.reverse.findSome? fun c => if c.source = k then r.pinned? k else none := by
  unfold NodeOutputs.lastExplicit? pinnedWrites
  rw [← List.filterMap_reverse, findSome?_filterMap]
  simp only [explicit?_pinned]
  exact Option.or_none

theorem fromPinned {r : OutputRequest} (ho : r.overrides = none)
    (hp : ∃ c ∈ r.incoming, (r.pinned? c.source).isSome) : r.FromPinned := by
  have hget (k : String) : r.outputs.get? k =
      (NodeOutputs.lastExplicit? {} r.pinnedWrites k).or
        (NodeOutputs.firstOffered? r.pinnedWrites k) := by
    rw [outputs_of_pinned ho hp, NodeOutputs.get?_applyAll]
  refine ⟨fun c hc v hv => ?_, fun k hk => ?_⟩
  · have hsame : ∀ a ∈ r.incoming.reverse, ∀ b ∈ r.incoming.reverse, ∀ v w,
        (if a.source = c.source then r.pinned? c.source else none) = some v →
        (if b.source = c.source then r.pinned? c.source else none) = some w → v = w := by
      intro a _ b _ v w ha hb
      rw [Option.ite_none_right_eq_some] at ha hb
      exact Option.some.inj (ha.2.symm.trans hb.2)
    have hlast : NodeOutputs.lastExplicit? {} r.pinnedWrites c.source = some v := by
      rw [lastExplicit?_pinned, findSome?_eq_some_iff_mem hsame]
      exact ⟨c, List.mem_reverse.2 hc, by rw [if_pos rfl, hv]⟩
    rw [hget, hlast, Option.some_or]
  · have hlast : NodeOutputs.lastExplicit? {} r.pinnedWrites k = none := by
      rw [lastExplicit?_pinned, List.findSome?_eq_none_iff]
      intro c hc
      by_cases hs : c.source = k
      · rw [if_pos hs, hk c (List.mem_reverse.1 hc) hs]
      · rw [if_neg hs]
    rw [hget, hlast, Option.none_or]
    unfold NodeOutputs.firstOffered? pinnedWrites
    rw [findSome?_filterMap]
    refine findSome?_congr fun c hc => ?_
    cases hv : r.pinned? c.source with
    | none => simp
    | some v =>
      show (if r.name? c.source = some k ∧ k ≠ "" ∧ k ≠ c.source then some v else none) = _
      have hids : k ≠ c.source := by
        rintro rfl
        rw [hk c hc rfl] at hv
        exact absurd hv (by simp)
      by_cases hname : r.name? c.source = some k
      · rw [if_pos hname, if_pos ⟨hname, name?_ne_empty hname, hids⟩]
      · rw [if_neg hname, if_neg fun h => hname h.1]

theorem pinnedSources_eq_nil {r : OutputRequest}
    (hp : ∀ c ∈ r.incoming, r.pinned? c.source = none) : r.pinnedSources = [] := by
  rw [pinnedSources_eq, List.filterMap_eq_nil_iff]
  intro c hc
  rw [hp c hc]
  rfl

theorem outputs_of_items {r : OutputRequest} (ho : r.overrides = none)
    (hp : ∀ c ∈ r.incoming, r.pinned? c.source = none) {source : String} {items : List Json}
    (hi : r.FromItems source items) :
    r.outputs = ({} : NodeOutputs).insertAliased source (r.name? source) (unwrapItems items) := by
  obtain ⟨hincoming, hitems, hne⟩ := hi
  obtain ⟨c, hc, rfl⟩ := List.map_eq_singleton_iff.1 hincoming
  obtain ⟨item, rest, rfl⟩ := List.exists_cons_of_ne_nil hne
  have hstrategy : r.strategy = .gathered [.items c.source (item :: rest)] := by
    unfold strategy
    rw [ho, pinnedSources_eq_nil hp, hc, hitems]
  unfold outputs
  rw [hstrategy]
  rfl

theorem outputs_of_nothing {r : OutputRequest} (ho : r.overrides = none)
    (hp : ∀ c ∈ r.incoming, r.pinned? c.source = none)
    (hi : ∀ source items, ¬r.FromItems source items) : r.outputs = {} := by
  have hstrategy : r.strategy = .gathered [] := by
    unfold strategy
    rw [ho, pinnedSources_eq_nil hp]
    dsimp only
    split
    · rename_i connection item items _ hincoming hitems
      exact absurd ⟨by rw [hincoming]; rfl, hitems, List.cons_ne_nil _ _⟩
        (hi connection.source (item :: items))
    · rfl
  unfold outputs
  rw [hstrategy]
  rfl

theorem byPrecedence {r : OutputRequest}
    (h : ∀ entries, r.overrides = some entries → Fields.Sorted entries) : r.ByPrecedence := by
  refine ⟨fun entries ho => fromOverrides ho (h entries ho), fromPinned, ?_, outputs_of_nothing⟩
  intro ho hp source items hi k
  rw [outputs_of_items ho hp hi, NodeOutputs.get?_insertAliased]
  by_cases hs : source = k
  · rw [if_pos hs, if_pos (Or.inl hs.symm)]
  · by_cases hname : r.name? source = some k
    · rw [if_neg hs, if_pos (Or.inr hname), if_pos ⟨hname, name?_ne_empty hname⟩]
      rfl
    · rw [if_neg hs, if_neg fun h => hname h.1, if_neg]
      · rfl
      · rintro (rfl | hname')
        · exact hs rfl
        · exact hname hname'

section Order

variable {r : OutputRequest} {connections : List Connection}

theorem incoming_perm (hc : r.connections.Perm connections) :
    r.incoming.Perm { r with connections }.incoming :=
  hc.filter _

theorem fromItems_iff_of_perm (hc : r.connections.Perm connections) (source : String)
    (items : List Json) :
    r.FromItems source items ↔ { r with connections }.FromItems source items := by
  have hsources := (incoming_perm hc).map Connection.source
  have hsingle : r.incoming.map Connection.source = [source] ↔
      { r with connections }.incoming.map Connection.source = [source] := by
    constructor
    · intro h
      rw [h] at hsources
      exact List.perm_singleton.1 hsources.symm
    · intro h
      rw [h] at hsources
      exact List.perm_singleton.1 hsources
  exact and_congr hsingle Iff.rfl

/-- The data under a key does not depend on the order in which nodes of that name come. -/
theorem get?_eq_of_fromPinned (hc : r.connections.Perm connections) (hn : r.NamesApart)
    (hp : r.FromPinned) (hp' : { r with connections }.FromPinned) (k : String) :
    r.outputs.get? k = { r with connections }.outputs.get? k := by
  have hperm := incoming_perm hc
  by_cases hid : ∃ c ∈ r.incoming, c.source = k ∧ r.pinned? k ≠ none
  · obtain ⟨c, hc, rfl, hv⟩ := hid
    obtain ⟨v, hv⟩ := Option.ne_none_iff_exists'.1 hv
    rw [hp.ids c hc v hv]
    exact (hp'.ids c (hperm.mem_iff.1 hc) v hv).symm
  · have hnone : ∀ c ∈ r.incoming, c.source = k → r.pinned? k = none := by
      intro c hc hs
      by_contra hne
      exact hid ⟨c, hc, hs, hne⟩
    rw [hp.names k hnone, hp'.names k fun c hc => hnone c (hperm.mem_iff.2 hc)]
    refine findSome?_perm hperm fun a ha b hb v w hav hbw => ?_
    rw [Option.ite_none_right_eq_some] at hav hbw
    -- connections from nodes of one name come from one node
    have hab := hn a ha b hb (Option.isSome_of_eq_some hav.2) (Option.isSome_of_eq_some hbw.2) k
      hav.1 hbw.1
    rw [hab] at hav
    exact Option.some.inj (hav.2.symm.trans hbw.2)

theorem sorted_outputs_of_pinned (ho : r.overrides = none)
    (hp : ∃ c ∈ r.incoming, (r.pinned? c.source).isSome) : Fields.Sorted r.outputs.entries := by
  rw [outputs_of_pinned ho hp]
  exact NodeOutputs.sorted_applyAll List.Pairwise.nil _

theorem outputs_eq_of_perm (hc : r.connections.Perm connections) (hn : r.NamesApart) :
    { r with connections }.outputs = r.outputs := by
  have hperm := incoming_perm hc
  rcases Option.eq_none_or_eq_some r.overrides with ho | ⟨entries, ho⟩
  · by_cases hp : ∃ c ∈ r.incoming, (r.pinned? c.source).isSome
    · have hp' : ∃ c ∈ { r with connections }.incoming,
          ({ r with connections }.pinned? c.source).isSome := by
        obtain ⟨c, hc, hv⟩ := hp
        exact ⟨c, hperm.mem_iff.1 hc, hv⟩
      have hentries : { r with connections }.outputs.entries = r.outputs.entries :=
        Fields.eq_of_get?_eq (sorted_outputs_of_pinned ho hp') (sorted_outputs_of_pinned ho hp)
          fun k => (get?_eq_of_fromPinned hc hn (fromPinned ho hp) (fromPinned ho hp') k).symm
      exact congrArg NodeOutputs.mk hentries
    · have hnone : ∀ c ∈ r.incoming, r.pinned? c.source = none := fun c hc =>
        Option.not_isSome_iff_eq_none.1 fun h => hp ⟨c, hc, h⟩
      have hnone' : ∀ c ∈ { r with connections }.incoming,
          { r with connections }.pinned? c.source = none := fun c hc =>
        hnone c (hperm.mem_iff.2 hc)
      by_cases hi : ∃ source items, r.FromItems source items
      · obtain ⟨source, items, hi⟩ := hi
        rw [outputs_of_items ho hnone hi,
          outputs_of_items (r := { r with connections }) ho hnone'
            ((fromItems_iff_of_perm hc source items).1 hi)]
        rfl
      · have hnot (source : String) (items : List Json) : ¬r.FromItems source items :=
          fun h => hi ⟨source, items, h⟩
        rw [outputs_of_nothing ho hnone hnot,
          outputs_of_nothing (r := { r with connections }) ho hnone' fun source items h =>
            hnot source items ((fromItems_iff_of_perm hc source items).2 h)]
  · -- overrides do not look at the connections
    have hout : r.outputs = r.outputsOfOverrides entries := by
      unfold outputs strategy
      rw [ho]
    have hout' : { r with connections }.outputs = r.outputsOfOverrides entries := by
      unfold outputs strategy
      dsimp only
      rw [ho]
      rfl
    rw [hout, hout']

end Order

/-- Overrides come first, then pinned data, then items; and if the names of the nodes with pinned
data do not clash, the order of the connections makes no difference. -/
theorem outputs_by_precedence (r : OutputRequest)
    (h : ∀ entries, r.overrides = some entries → Fields.Sorted entries) :
    r.ByPrecedence ∧ (r.NamesApart → ∀ connections, r.connections.Perm connections →
      { r with connections }.outputs = r.outputs) :=
  ⟨byPrecedence h, fun hn _ hc => outputs_eq_of_perm hc hn⟩

/-- Two nodes before a target, of which one has the id of the other for a name. -/
def crossed (overrides : Option (Fields Json)) : OutputRequest where
  target := "t"
  nodes := [{ id := "a", name := "b", sample := some (.bool true), samplePinned := true },
    { id := "b", name := "c", sample := some (.bool false), samplePinned := true }]
  connections := [⟨"a", "t"⟩, ⟨"b", "t"⟩]
  overrides := overrides

theorem outputs_by_precedence_crossed :
    Fields.Sorted [("a", Json.null), ("b", .bool true)] ∧
      (crossed (some [("a", .null), ("b", .bool true)])).ByPrecedence ∧
      (crossed none).NamesApart ∧
      { crossed none with connections := [⟨"b", "t"⟩, ⟨"a", "t"⟩] }.outputs =
        (crossed none).outputs := by
  have hsorted : Fields.Sorted [("a", Json.null), ("b", .bool true)] :=
    List.pairwise_pair.2 (by decide)
  have hapart : (crossed none).NamesApart := by
    have hin : (crossed none).incoming = [⟨"a", "t"⟩, ⟨"b", "t"⟩] := by rfl
    have hnames : (crossed none).name? "a" ≠ (crossed none).name? "b" := by decide
    intro c hc c' hc' _ _ name hname hname'
    rw [hin, List.mem_cons, List.mem_singleton] at hc hc'
    rcases hc with rfl | rfl
    · rcases hc' with rfl | rfl
      · rfl
      · exact absurd (hname.trans hname'.symm) hnames
    · rcases hc' with rfl | rfl
      · exact absurd (hname'.trans hname.symm) hnames
      · rfl
  have hover := outputs_by_precedence (crossed (some [("a", .null), ("b", .bool true)]))
    fun entries h => Option.some.inj h ▸ hsorted
  have hpinned := outputs_by_precedence (crossed none) (by simp [crossed])
  exact ⟨hsorted, hover.1, hapart, hpinned.2 hapart _ (.swap _ _ _)⟩

end OutputRequest

end Workflow
