import Workflow.Proofs.Eval.Ensures
import Workflow.Proofs.Eval.TextParts

/-! How deep collections are nested inside values, and how much deeper the functions of the language
nest what they are given: by one level at most, if they call no callback and read no JSON. -/
namespace Workflow.Eval

mutual

/-- How deep arrays and objects are nested inside the value. A method of an array counts as the
array; what a function of an expression sees does not count. -/
def Value.nesting : Value → Nat
  | .array _ items => itemsNesting items + 1
  | .object _ entries => entriesNesting entries + 1
  | .func f => f.nesting
  | _ => 0

def Func.nesting : Func → Nat
  | .arrayMethod _ items _ => itemsNesting items + 1
  | _ => 0

def itemsNesting : List Value → Nat
  | [] => 0
  | v :: rest => max v.nesting (itemsNesting rest)

def entriesNesting : List (String × Value) → Nat
  | [] => 0
  | (_, v) :: rest => max v.nesting (entriesNesting rest)

end

/-- Collections are nested no deeper than `n` levels. -/
abbrev Shallow (n : Nat) (v : Value) : Prop :=
  v.nesting ≤ n

theorem itemsNesting_le_iff {n : Nat} {items : List Value} :
    itemsNesting items ≤ n ↔ ∀ v ∈ items, Shallow n v := by
  induction items with
  | nil => exact ⟨fun _ => List.forall_mem_nil _, fun _ => Nat.zero_le n⟩
  | cons v rest ih => rw [itemsNesting, Nat.max_le, List.forall_mem_cons, ih]

theorem entriesNesting_le_iff {n : Nat} {entries : List (String × Value)} :
    entriesNesting entries ≤ n ↔ ∀ e ∈ entries, Shallow n e.2 := by
  induction entries with
  | nil => exact ⟨fun _ => List.forall_mem_nil _, fun _ => Nat.zero_le n⟩
  | cons e rest ih => rw [entriesNesting, Nat.max_le, List.forall_mem_cons, ih]

/-- The methods of arrays whose results are made of values that a callback returned. -/
def ArrayMethod.keepsResults (m : ArrayMethod) : Bool :=
  [ArrayMethod.map, .flatMap, .reduce].contains m

namespace Shallow

variable {n : Nat}

theorem deeper {n' : Nat} {v : Value} (h : Shallow n v) (hn : n ≤ n') : Shallow n' v :=
  Nat.le_trans h hn

theorem array_iff {mark : Mark} {items : List Value} :
    Shallow (n + 1) (.array mark items) ↔ ∀ v ∈ items, Shallow n v := by
  rw [Shallow, Value.nesting, Nat.add_le_add_iff_right, itemsNesting_le_iff]

theorem object_iff {mark : Mark} {entries : List (String × Value)} :
    Shallow (n + 1) (.object mark entries) ↔ ∀ e ∈ entries, Shallow n e.2 := by
  rw [Shallow, Value.nesting, Nat.add_le_add_iff_right, entriesNesting_le_iff]

theorem items {mark : Mark} {items : List Value} (h : Shallow n (.array mark items)) :
    ∀ v ∈ items, Shallow n v :=
  array_iff.1 (h.deeper (Nat.le_succ n))

theorem entries {mark : Mark} {entries : List (String × Value)}
    (h : Shallow n (.object mark entries)) : ∀ e ∈ entries, Shallow n e.2 :=
  object_iff.1 (h.deeper (Nat.le_succ n))

theorem item_at {items : List Value} (h : ∀ v ∈ items, Shallow n v) (i : Nat) :
    Shallow n (items[i]?.getD .undefined) := by
  cases hi : items[i]? with
  | none => exact Nat.zero_le n
  | some v => exact h v (List.mem_of_getElem? hi)

theorem arg {args : List Value} (h : ∀ v ∈ args, Shallow n v) (i : Nat) :
    Shallow n (Value.arg args i) := by
  unfold Value.arg
  rw [List.getD_eq_getElem?_getD]
  exact item_at h i

theorem characters (s : String) : ∀ v ∈ characters s, Shallow n v := by
  intro v hv
  obtain ⟨c, -, rfl⟩ := List.mem_map.1 hv
  exact Nat.zero_le n

theorem map_idx {items : List Value} (h : ∀ v ∈ items, Shallow n v) (key : Nat → String) :
    ∀ e ∈ items.mapIdx fun i v => (key i, v), Shallow n e.2 := by
  intro e he
  obtain ⟨i, hi, rfl⟩ := List.mem_mapIdx.1 he
  exact h _ (List.getElem_mem hi)

/-- The entries of a collection are nested less deep than the collection. -/
theorem entries_of {v : Value} (h : Shallow (n + 1) v) : ∀ e ∈ entriesOf v, Shallow n e.2 := by
  unfold entriesOf
  split
  · exact object_iff.1 h
  · exact map_idx (array_iff.1 h) _
  · exact map_idx (characters _) _
  · exact List.forall_mem_nil _

theorem pair {v : Value} (h : Shallow n v) {e : String × Value} (he : pair? v = some e) :
    Shallow n e.2 := by
  unfold pair? at he
  split at he
  · cases he
    exact arg h.items 1
  · cases he

theorem flatten_onto (depth : Nat) {done items : List Value} (hd : ∀ v ∈ done, Shallow n v)
    (hi : ∀ v ∈ items, Shallow n v) : ∀ v ∈ flattenOnto depth done items, Shallow n v :=
  forall_flattenOnto (fun _ _ h => h.items) depth hd hi

theorem bind {α : Type} {table : List (String × α)} {key : String} {method : α → Func}
    (h : ∀ m, Shallow n (.func (method m))) : Shallow n (bind? table key method) := by
  unfold bind?
  split
  · exact h _
  · exact Nat.zero_le n

theorem array_member {mark : Mark} {items : List Value} (h : Shallow n (.array mark items))
    (key : String) : Shallow n (arrayMember mark items key) := by
  unfold arrayMember
  split
  · rw [List.getD_eq_getElem?_getD]
    exact item_at h.items _
  · split
    · exact Nat.zero_le n
    · exact bind fun m => h

theorem string_member (s key : String) : Shallow n (stringMember s key) := by
  unfold stringMember
  split
  · split
    · exact Nat.zero_le n
    · exact Nat.zero_le n
  · split
    · exact Nat.zero_le n
    · exact bind fun m => Nat.zero_le n

theorem space_member (s : Namespace) (key : String) : Shallow n (spaceMember s key) := by
  unfold spaceMember
  split
  · exact Nat.zero_le n
  · split
    · exact Nat.zero_le n
    · exact Nat.zero_le n

theorem moment_field (m : Time.Moment) (f : MomentField) : Shallow n (momentField m f) := by
  cases f
  all_goals exact Nat.zero_le n

theorem member {v : Value} (h : Shallow n v) (key : String) : Shallow n (member v key) := by
  cases v with
  | object mark entries =>
    show Shallow n ((Fields.get? entries key).getD .undefined)
    cases he : Fields.get? entries key with
    | none => exact Nat.zero_le n
    | some w => exact h.entries _ (Fields.mem_of_lookup he)
  | array mark items => exact array_member h key
  | string s => exact string_member s key
  | number x => exact bind fun m => Nat.zero_le n
  | bool b => exact bind fun m => Nat.zero_le n
  | date t => exact bind fun m => Nat.zero_le n
  | moment m =>
    unfold Eval.member
    dsimp only
    split
    · exact moment_field m _
    · exact bind fun m => Nat.zero_le n
  | space s => exact space_member s key
  | undefined => exact Nat.zero_le n
  | null => exact Nat.zero_le n
  | func f => exact Nat.zero_le n

theorem node_helper {h : NodeHelper} {nodes : Value} {args : List Value} (hn : Shallow n nodes)
    (ha : ∀ v ∈ args, Shallow n v) : Shallow n (h.apply nodes args) := by
  rcases nodeHelper_apply_cases h nodes args with ⟨b, he⟩ | he | he | ⟨mark, entries, name, rfl, he⟩
  · rw [he]
    exact Nat.zero_le n
  · rw [he]
    exact Nat.zero_le n
  · rw [he]
    exact arg ha 1
  · exact hn.entries _ (Fields.mem_of_lookup he)

variable {s : Setting}

theorem new_string (text : String) : Ensures s (Shallow n) (newString text) :=
  .after fun _ => .pure (Nat.zero_le n)

theorem free_array {items : List Value} (h : ∀ v ∈ items, Shallow n v) :
    Ensures s (Shallow (n + 1)) (freeArray items) :=
  .after fun _ => .pure (array_iff.2 h)

theorem new_array {items : List Value} (h : ∀ v ∈ items, Shallow n v) :
    Ensures s (Shallow (n + 1)) (newArray items) :=
  .after fun _ => free_array h

theorem free_object {entries : List (String × Value)} (h : ∀ e ∈ entries, Shallow n e.2) :
    Ensures s (Shallow (n + 1)) (freeObject entries) :=
  .after fun _ => .pure (object_iff.2 fun e he => h e (Fields.mem_of_mem_ofList he))

theorem to_array {args : List Value} (ha : ∀ v ∈ args, Shallow n v) :
    Ensures s (Shallow (n + 1)) (toArray args) := by
  unfold toArray
  split
  · split
    · exact .fail
    · refine .after fun _ => free_array fun v hv => ?_
      rw [List.eq_of_mem_replicate hv]
      exact Nat.zero_le n
  · exact new_array ha

theorem to_object {v : Value} (hv : Shallow (n + 1) v) :
    Ensures s (Shallow (n + 1)) (toObject v) := by
  unfold toObject
  split
  · exact .pure hv
  · exact .pure hv
  · exact free_object (List.forall_mem_nil _)

theorem items_of {v : Value} (hv : Shallow n v) :
    Ensures s (fun items => ∀ w ∈ items, Shallow n w) (itemsOf v) := by
  unfold itemsOf
  split
  · exact .pure hv.items
  · exact .pure (characters _)
  · refine .after fun _ => .pure fun w hw => ?_
    rw [List.eq_of_mem_replicate hw]
    exact Nat.zero_le n
  · exact .pure (List.forall_mem_nil _)

theorem convert {space : Namespace} {args : List Value} (ha : ∀ v ∈ args, Shallow n v) :
    Ensures s (Shallow (n + 1)) (convert space args) := by
  cases space
  case array => exact to_array ha
  case object => exact to_object ((arg ha 0).deeper (Nat.le_succ n))
  case date => exact .look (.pure (Nat.zero_le _))
  case string | number | boolean => exact .pure (Nat.zero_le _)
  all_goals exact .fail

theorem number_method (x : Float) (method : NumberMethod) (args : List Value) :
    Ensures s (Shallow n) (numberMethod x method args) := by
  cases method
  case toFixed =>
    show Ensures s (Shallow n) (toFixed x (Value.arg args 0))
    unfold toFixed
    dsimp only
    split
    · exact .fail
    · split
      · exact .pure (Nat.zero_le n)
      · exact .pure (Nat.zero_le n)
  case toString =>
    show Ensures s (Shallow n) (toRadix x (Value.arg args 0))
    unfold toRadix
    split
    · exact .pure (Nat.zero_le n)
    · dsimp only
      split
      · exact .fail
      · exact .pure (Nat.zero_le n)
  all_goals exact .pure (Nat.zero_le n)

theorem shift (m : Time.Moment) (duration : Value) (sign : Float) :
    Ensures s (Shallow n) (shift m duration sign) := by
  unfold Eval.shift
  split
  · exact .after fun _ => .pure (Nat.zero_le n)
  · refine .after fun _ => ?_
    split
    · exact .pure (Nat.zero_le n)
    · exact .fail
    · exact .fail
  · exact .fail

theorem moment_method (m : Time.Moment) (method : MomentMethod) (args : List Value) :
    Ensures s (Shallow n) (momentMethod m method args) := by
  cases method
  case plus | minus => exact shift _ _ _
  case startOf | endOf => exact .after fun _ => .after fun _ => .pure (Nat.zero_le n)
  case setZone => exact .after fun _ => .pure (Nat.zero_le n)
  all_goals exact .pure (Nat.zero_le n)

theorem stringify (args : List Value) : Ensures s (Shallow n) (stringify args) := by
  unfold Eval.stringify
  split
  · exact .pure (Nat.zero_le n)
  · exact new_string _

theorem decode_uri (keep : List Char) (text : String) :
    Ensures s (Shallow n) (decodeUri keep text) := by
  unfold decodeUri
  split
  · exact .pure (Nat.zero_le n)
  · exact .fail

/-- The entries of an object, each as an array: the deepest of them is nested one level deeper than
the object. -/
theorem object_entries (mark : Mark) {v : Value} (h : Shallow (n + 1) v) :
    Shallow (n + 2) (.array mark
      (Value.ofLists mark ((entriesOf v).map fun (key, v) => [.string key, v]))) := by
  refine array_iff.2 fun w hw => ?_
  obtain ⟨i, hi, rfl⟩ := List.mem_mapIdx.1 hw
  obtain ⟨e, he, hlist⟩ := List.mem_map.1 (List.getElem_mem hi)
  rw [← hlist]
  refine array_iff.2 (List.forall_mem_cons.2 ⟨Nat.zero_le n, ?_⟩)
  exact List.forall_mem_singleton.2 (h.entries_of e he)

theorem native {call : Caller} {f : Native} (hf : f ≠ .arrayFrom) (hj : f ≠ .jsonParse)
    (hroots : ∀ v, named? s.roots "$node" = some v → Shallow (n + 1) v) {args : List Value}
    (ha : ∀ v ∈ args, Shallow (n + 1) v) :
    Ensures s (Shallow (n + 2)) (f.apply call args) := by
  have hn := Nat.le_succ (n + 1)
  have hfirst : Shallow (n + 2) (Value.arg args 0) := (arg ha 0).deeper hn
  cases f
  case arrayFrom => exact absurd rfl hf
  case jsonParse => exact absurd rfl hj
  case encodeURIComponent | encodeURI | stringFromCharCode => exact new_string _
  case decodeURIComponent | decodeURI => exact decode_uri _ _
  case nodeHelper helper =>
    refine .look (.pure (deeper (node_helper ?_ ha) hn))
    cases hv : named? s.roots "$node" with
    | none => exact Nat.zero_le _
    | some v => exact hroots v hv
  case jsonStringify => exact stringify _
  case objectKeys =>
    refine free_array fun v hv => ?_
    obtain ⟨e, -, rfl⟩ := List.mem_map.1 hv
    exact Nat.zero_le _
  case objectValues =>
    refine free_array fun v hv => ?_
    obtain ⟨e, he, rfl⟩ := List.mem_map.1 hv
    -- the values lie inside the collection, so that another one around them makes no difference
    exact hfirst.entries_of e he
  case objectEntries => exact .after fun mark => .pure (object_entries mark (arg ha 0))
  case objectAssign =>
    refine .after fun _ => free_object fun e he => ?_
    obtain ⟨v, hv, he⟩ := List.mem_flatMap.1 (Fields.mem_of_mem_ofList he)
    exact entries_of (deeper (ha v hv) hn) e he
  case objectFromEntries =>
    unfold Native.apply
    dsimp only
    split
    · rename_i mark items hitems
      refine free_object fun e he => ?_
      obtain ⟨v, hv, he⟩ := List.mem_filterMap.1 he
      have hall : Shallow (n + 1) (.array mark items) := hitems ▸ arg ha 0
      exact (hall.items v hv).pair he
    · exact free_object (List.forall_mem_nil _)
  case arrayOf => exact new_array ha
  case arrayIsArray | numberIsInteger | numberIsFinite | numberIsNaN =>
    unfold Native.apply
    dsimp only
    split
    · exact .pure (Nat.zero_le _)
    · exact .pure (Nat.zero_le _)
  case dateNow | dateTimeNow => exact .look (.pure (Nat.zero_le _))
  case dateTimeUtc =>
    unfold Native.apply
    dsimp only
    split
    · exact .look (.pure (Nat.zero_le _))
    · exact .after fun _ => .pure (Nat.zero_le _)
  case dateTimeFromISO | dateTimeFromMillis => exact .after fun _ => .pure (Nat.zero_le _)
  case dateTimeFromJSDate =>
    unfold Native.apply
    dsimp only
    split
    · exact .pure (Nat.zero_le _)
    · exact .fail
  all_goals exact .pure (Nat.zero_le _)

theorem or_minus_one (i : Option Nat) : Shallow n (orMinusOne i) := by
  cases i
  all_goals exact Nat.zero_le n

/-- Methods of texts nest at most one array around texts. -/
theorem string_method (call : Caller) (text : String) (method : StringMethod) (args : List Value) :
    Ensures s (Shallow (n + 1)) (stringMethod call text method args) := by
  cases method
  case split =>
    refine new_array fun v hv => ?_
    obtain ⟨part, -, rfl⟩ := List.mem_map.1 hv
    exact Nat.zero_le n
  case replace | replaceAll => exact .after fun _ => new_string _
  case padStart | padEnd =>
    show Ensures s _ (pad _ text args)
    unfold pad
    extract_lets target fill length
    split
    · exact .pure (Nat.zero_le _)
    · exact .after fun _ => .pure (Nat.zero_le _)
  case «repeat» =>
    show Ensures s _ (repeated text _)
    unfold repeated
    dsimp only
    split
    · exact .fail
    · exact .after fun _ => .pure (Nat.zero_le _)
  case concat => exact new_string _
  case «at» =>
    unfold stringMethod
    dsimp only
    split
    · exact .pure (Nat.zero_le _)
    · exact .pure (Nat.zero_le _)
  case indexOf | lastIndexOf => exact .pure (or_minus_one _)
  all_goals exact .pure (Nat.zero_le _)

theorem concat_from {items args : List Value} (hi : ∀ v ∈ items, Shallow n v)
    (ha : ∀ v ∈ args, Shallow n v) :
    Ensures s (fun items => ∀ v ∈ items, Shallow n v) (concatFrom items args) := by
  induction args generalizing items with
  | nil => exact .pure hi
  | cons v args ih =>
    obtain ⟨hv, ha⟩ := List.forall_mem_cons.1 ha
    refine .after fun _ => ih (fun w hw => ?_) ha
    split at hw
    · rcases List.mem_append.1 hw with hw | hw
      · exact hi w hw
      · exact hv.items w hw
    · rcases List.mem_append.1 hw with hw | hw
      · exact hi w hw
      · rwa [List.mem_singleton.1 hw]

section Loops

variable {once : List Value → EvalM Value} {rest : Nat → List Value}

theorem filter_from {done items : List Value} (hd : ∀ v ∈ done, Shallow n v)
    (hi : ∀ v ∈ items, Shallow n v) (i : Nat) :
    Ensures s (fun kept => ∀ v ∈ kept, Shallow n v) (filterFrom once rest i done items) := by
  induction items generalizing done i with
  | nil => exact .pure fun v hv => hd v (List.mem_reverse.1 hv)
  | cons v items ih =>
    obtain ⟨hv, hi⟩ := List.forall_mem_cons.1 hi
    refine .after fun w => ih ?_ hi _
    split
    · exact List.forall_mem_cons.2 ⟨hv, hd⟩
    · exact hd

theorem search_from {items : List Value} (hi : ∀ v ∈ items, Shallow n v) (wanted : Bool) (i : Nat) :
    Ensures s (fun found => ∀ p ∈ found, Shallow n p.2) (searchFrom once rest wanted i items) := by
  induction items generalizing i with
  | nil => exact .pure fun p hp => absurd hp (Option.not_mem_none p)
  | cons v items ih =>
    obtain ⟨hv, hi⟩ := List.forall_mem_cons.1 hi
    refine .after fun w => ?_
    split
    · refine .pure fun p hp => ?_
      rwa [← Option.some.inj hp]
    · exact ih hi _

theorem for_each_from (items : List Value) (i : Nat) :
    Ensures s (Shallow n) (forEachFrom once rest i items) := by
  induction items generalizing i with
  | nil => exact .pure (Nat.zero_le n)
  | cons v items ih => exact .after fun _ => ih _

end Loops

theorem array_method (call : Caller) {mark : Mark} {items : List Value}
    (hi : Shallow n (.array mark items)) {method : ArrayMethod}
    (hm : method.keepsResults = false) {args : List Value} (ha : ∀ v ∈ args, Shallow n v) :
    Ensures s (Shallow (n + 1)) (arrayMethod call mark items method args) := by
  have hn := Nat.le_succ n
  have hnil : ∀ v ∈ ([] : List Value), Shallow n v := List.forall_mem_nil _
  cases method
  case map | flatMap | reduce => cases hm
  -- what the callback returns decides which items there are, but is none of them
  case filter =>
    exact .after fun f => (filter_from hnil hi.items 0).bind fun kept hk => free_array hk
  case find =>
    refine .after fun f => (search_from hi.items _ 0).bind fun found hfound => .pure ?_
    cases found with
    | none => exact Nat.zero_le _
    | some p => exact deeper (hfound p rfl) hn
  case findIndex => exact .after fun f => .after fun found => .pure (or_minus_one _)
  case some | every => exact .after fun f => .after fun found => .pure (Nat.zero_le _)
  case forEach => exact .after fun f => for_each_from _ _
  case sort =>
    refine .after fun behind => ?_
    have hsorted : Ensures s (fun sorted => ∀ v ∈ sorted, Shallow n v) (sortItems behind items) :=
      .of_yields fun sorted h v hv => hi.items v ((perm_of_sort_items items sorted h).mem_iff.1 hv)
    exact hsorted.bind fun _ h => free_array h
  case indexOf | lastIndexOf => exact .pure (or_minus_one _)
  case join | toString => exact .after fun _ => new_string _
  case concat => exact (concat_from hi.items ha).bind fun _ h => new_array h
  case slice => exact free_array fun v hv => hi.items v ((between_sublist _ _ _).subset hv)
  case reverse => exact free_array fun v hv => hi.items v (List.mem_reverse.1 hv)
  case flat =>
    exact new_array fun v hv => flatten_onto _ hnil hi.items v (List.mem_reverse.1 hv)
  case «at» =>
    refine .pure (deeper ?_ hn)
    cases single? (Value.arg args 0) items.length with
    | none => exact Nat.zero_le n
    | some i => exact item_at hi.items i
  all_goals exact .pure (Nat.zero_le _)

end Shallow

end Workflow.Eval
