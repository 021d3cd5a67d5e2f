import Workflow.Proofs.Eval.Unaffected

/-! A root of the context does not affect expressions in which no name stands for it: neither the
functions that they define nor those that come with the language can see it. -/
namespace Workflow.Eval

namespace SameBut

variable {r : ContextRoot} {s s' : Setting} (h : SameBut r s s')
include h

theorem lookup_eq {env : Env} {name : String} (hn : name ∉ r.names) :
    lookup? s env name = lookup? s' env name := by
  unfold lookup?
  rw [h.roots name hn, h.now]

theorem blind_lookup {env : Env} (he : ∀ e ∈ env, e.2.Blind r) {name : String}
    (hn : name ∉ r.names) {v : Value} (hv : lookup? s env name = some v) : v.Blind r := by
  unfold lookup? at hv
  split at hv
  · rename_i w hw
    cases hv
    exact blind_of_lookup he hw
  · split at hv
    · rename_i w hw
      cases hv
      exact h.blind name v hw
    · split at hv
      · cases hv
        trivial
      · cases hv
        trivial
      · cases hv
        trivial
      · cases hv
        trivial
      · exact blind_global hn hv

theorem read_name {env : Env} (he : ∀ e ∈ env, e.2.Blind r) {name : String} (hn : name ∉ r.names) :
    Unaffected s s' (Value.Blind r) (readName env name) := by
  refine .look ?_ ?_
  · rw [h.lookup_eq hn]
  · cases hv : lookup? s env name with
    | none => exact .fail
    | some v => exact .pure (h.blind_lookup he hn hv)

theorem type_of_name {env : Env} {name : String} (hn : name ∉ r.names) :
    Unaffected s s' (Value.Blind r) (typeOfName env name) := by
  refine .look ?_ (.pure trivial)
  rw [h.lookup_eq hn]

omit h in
theorem read_member {v : Value} (hv : v.Blind r) (key : String) :
    Unaffected s s' (Value.Blind r) (readMember v key) := by
  unfold readMember
  split
  · exact .mismatch
  · exact .pure (blind_member hv key)

theorem add (v w : Value) : Unaffected s s' (Value.Blind r) (add v w) := by
  unfold Eval.add
  split
  · exact h.new_string _
  · exact h.new_string _
  · exact .pure trivial

theorem apply_binary (op : BinaryOp) (v w : Value) :
    Unaffected s s' (Value.Blind r) (applyBinary op v w) := by
  cases op
  case add => exact h.add v w
  all_goals exact .pure trivial

theorem construct (callee : Value) (args : List Value) :
    Unaffected s s' (Value.Blind r) (construct callee args) := by
  unfold Eval.construct
  split
  · refine .look ?_ ((Unaffected.orOutOfRange _ _).bind fun _ _ => .pure trivial)
    rw [h.now]
  · exact .mismatch

/-- Only these functions look at a root without naming it. -/
theorem node_helper (hr : r ≠ .node) (helper : NodeHelper) {args : List Value}
    (ha : ∀ v ∈ args, v.Blind r) :
    Unaffected s s' (Value.Blind r) (do
      return helper.apply ((named? (← read).roots "$node").getD .undefined) args) := by
  have hn : "$node" ∉ r.names := by
    cases r
    case node => exact absurd rfl hr
    all_goals decide
  refine .look ?_ (.pure (blind_nodeHelper ?_ ha))
  · rw [h.roots _ hn]
  · cases hv : named? s.roots "$node" with
    | none => trivial
    | some v => exact h.blind _ v hv

section

variable {call : Caller} (hc : CallsBlindly r s s' call)
include hc

theorem collect {args : List Value} (ha : ∀ v ∈ args, v.Blind r) :
    Unaffected s s' (Value.Blind r) (collect call args) := by
  refine (h.items_of (blind_arg ha 0)).bind fun items hi => ?_
  refine (h.reserve_items _).bind fun _ _ => ?_
  split
  · exact free_array hi
  · refine (callback ha 1 _).bind fun f hf => ?_
    have hrest (i : Nat) : ∀ v ∈ [Value.ofNat i], v.Blind r := List.forall_mem_singleton.2 trivial
    exact (map_from (hc f · hf) hrest (List.forall_mem_nil _) hi 0).bind fun _ hm => free_array hm

theorem native {f : Native} (hf : (Value.func (.native f)).Blind r) {args : List Value}
    (ha : ∀ v ∈ args, v.Blind r) : Unaffected s s' (Value.Blind r) (f.apply call args) := by
  have hfirst : (Value.arg args 0).Blind r := blind_arg ha 0
  cases f
  case encodeURIComponent | encodeURI | stringFromCharCode => exact h.new_string _
  case decodeURIComponent | decodeURI => exact decode_uri _ _
  case nodeHelper helper => exact h.node_helper (hf rfl) helper ha
  case jsonStringify => exact h.stringify _
  case jsonParse => exact parse_json _
  case objectKeys =>
    refine free_array fun v hv => ?_
    obtain ⟨e, -, rfl⟩ := List.mem_map.1 hv
    trivial
  case objectValues =>
    refine free_array fun v hv => ?_
    obtain ⟨e, he, rfl⟩ := List.mem_map.1 hv
    exact blind_entriesOf hfirst e he
  case objectEntries =>
    refine Unaffected.fresh_mark.bind fun mark _ =>
      .pure (blind_array.2 (blind_ofLists mark fun items hi => ?_))
    obtain ⟨e, he, rfl⟩ := List.mem_map.1 hi
    have hv : e.2.Blind r := blind_entriesOf hfirst e he
    exact List.forall_mem_cons.2 ⟨trivial, List.forall_mem_singleton.2 hv⟩
  case objectAssign =>
    refine (h.reserve_items _).bind fun _ _ => free_object (blind_ofList fun e he => ?_)
    obtain ⟨v, hv, he⟩ := List.mem_flatMap.1 he
    exact blind_entriesOf (ha v hv) e he
  case objectFromEntries =>
    unfold Native.apply
    dsimp only
    split
    · rename_i items heq
      rw [heq] at hfirst
      refine free_object fun e he => ?_
      obtain ⟨v, hv, he⟩ := List.mem_filterMap.1 he
      exact blind_pair (blind_array.1 hfirst v hv) he
    · exact free_object (List.forall_mem_nil _)
  case arrayFrom => exact h.collect hc ha
  case arrayOf => exact h.new_array ha
  case arrayIsArray | numberIsInteger | numberIsFinite | numberIsNaN =>
    unfold Native.apply
    dsimp only
    split
    · exact .pure trivial
    · exact .pure trivial
  case dateNow => exact h.of_now (g := fun t => .number (Number.ofInt t.toMillis)) fun _ => trivial
  case dateTimeNow => exact h.of_now (g := fun t => .moment (.ofUtc t)) fun _ => trivial
  case dateTimeUtc =>
    unfold Native.apply
    dsimp only
    split
    · exact h.of_now (g := fun t => .moment (.ofUtc t)) fun _ => trivial
    · exact (Unaffected.orOutOfRange _ _).bind fun _ _ => .pure trivial
  case dateTimeFromISO | dateTimeFromMillis =>
    exact (Unaffected.orOutOfRange _ _).bind fun _ _ => .pure trivial
  case dateTimeFromJSDate =>
    unfold Native.apply
    dsimp only
    split
    · exact .pure trivial
    · exact .outOfRange
  all_goals exact .pure trivial

theorem string_method (text : String) (method : StringMethod) {args : List Value}
    (ha : ∀ v ∈ args, v.Blind r) :
    Unaffected s s' (Value.Blind r) (stringMethod call text method args) := by
  cases method
  case indexOf | lastIndexOf => exact .pure (blind_orMinusOne _)
  case replace =>
    exact (h.replace_first hc (blind_arg ha 1) _ _).bind fun _ _ => h.new_string _
  case replaceAll =>
    exact (h.replace_all hc (blind_arg ha 1) _ _).bind fun _ _ => h.new_string _
  case split => exact h.split_text _ _
  case padStart | padEnd => exact h.pad _ _ _
  case «repeat» => exact h.repeated _ _
  case concat => exact h.new_string _
  case «at» =>
    unfold stringMethod
    dsimp only
    split
    · exact .pure trivial
    · exact .pure trivial
  all_goals exact .pure trivial

omit h in
theorem sorted {args items : List Value} (ha : ∀ v ∈ args, v.Blind r)
    (hi : ∀ v ∈ items, v.Blind r) : Unaffected s s' (fun items => ∀ v ∈ items, v.Blind r)
      (comparison call args >>= fun behind => sortItems behind items) := by
  unfold comparison
  split
  · exact sort_items (fun _ _ _ _ => .pure trivial) hi
  · rw [bind_assoc]
    refine (callback ha 0 _).bind fun f hf => ?_
    refine sort_items (fun a b hva hvb => ?_) hi
    have hab : ∀ v ∈ [a, b], v.Blind r :=
      List.forall_mem_cons.2 ⟨hva, List.forall_mem_singleton.2 hvb⟩
    exact (hc f [a, b] hf hab).bind fun _ _ => .pure trivial

theorem array_method {mark : Mark} {items : List Value} (hi : ∀ v ∈ items, v.Blind r)
    (method : ArrayMethod) {args : List Value} (ha : ∀ v ∈ args, v.Blind r) :
    Unaffected s s' (Value.Blind r) (arrayMethod call mark items method args) := by
  have hself : (Value.array mark items).Blind r := blind_array.2 hi
  have hrest (i : Nat) : ∀ v ∈ [Value.ofNat i, .array mark items], v.Blind r :=
    List.forall_mem_cons.2 ⟨trivial, List.forall_mem_singleton.2 hself⟩
  have hnil : ∀ v ∈ ([] : List Value), v.Blind r := List.forall_mem_nil _
  cases method
  case map =>
    refine (callback ha 0 _).bind fun f hf => ?_
    exact (map_from (hc f · hf) hrest hnil hi 0).bind fun _ hm => h.new_array hm
  case flatMap =>
    refine (callback ha 0 _).bind fun f hf => ?_
    refine (map_from (hc f · hf) hrest hnil hi 0).bind fun _ hm => h.new_array fun v hv => ?_
    exact blind_flattenOnto 1 hnil hm v (List.mem_reverse.1 hv)
  case filter =>
    refine (callback ha 0 _).bind fun f hf => ?_
    exact (filter_from (hc f · hf) hrest hnil hi 0).bind fun _ hm => free_array hm
  case find =>
    refine (callback ha 0 _).bind fun f hf => ?_
    refine (search_from (hc f · hf) hrest hi _ 0).bind fun found hfound => .pure ?_
    cases found with
    | none => trivial
    | some p => exact hfound p rfl
  case findIndex =>
    refine (callback ha 0 _).bind fun f hf => ?_
    exact (search_from (hc f · hf) hrest hi _ 0).bind fun _ _ => .pure (blind_orMinusOne _)
  case some | every =>
    refine (callback ha 0 _).bind fun f hf => ?_
    exact (search_from (hc f · hf) hrest hi _ 0).bind fun _ _ => .pure trivial
  case forEach =>
    exact (callback ha 0 _).bind fun f hf => for_each_from (hc f · hf) hrest hi 0
  case reduce =>
    refine (callback ha 0 _).bind fun f hf => ?_
    split
    · rename_i start hstart
      exact reduce_from (hc f · hf) hrest hi 0 (ha start (List.mem_of_getElem? hstart))
    · obtain ⟨hv, hi⟩ := List.forall_mem_cons.1 hi
      exact reduce_from (hc f · hf) hrest hi 1 hv
    · exact .mismatch
  case sort =>
    unfold arrayMethod
    dsimp only
    simp only [← bind_assoc]
    exact (sorted hc ha hi).bind fun _ hm => free_array hm
  case indexOf | lastIndexOf => exact .pure (blind_orMinusOne _)
  case join | toString => exact (h.join_from _ _ _ _).bind fun _ _ => h.new_string _
  case concat => exact (h.concat_from hi ha).bind fun _ hm => h.new_array hm
  case slice => exact free_array (blind_sliceOf hi _)
  case reverse => exact free_array fun v hv => hi v (List.mem_reverse.1 hv)
  case flat =>
    exact h.new_array fun v hv => blind_flattenOnto _ hnil hi v (List.mem_reverse.1 hv)
  case «at» =>
    refine .pure ?_
    cases single? (Value.arg args 0) items.length with
    | none => trivial
    | some i => exact blind_of_getElem? hi i
  all_goals exact .pure trivial

end

section

omit h

variable {call : Caller} {env : Env}

mutual

theorem step (h : SameBut r s s') (hc : CallsBlindly r s s' call) (he : ∀ e ∈ env, e.2.Blind r) :
    ∀ {e : Expr}, r.Unnamed e.names → Unaffected s s' (Link.Blind r) (step call env e)
  | .literal value, _ => .pure fun v hv => by
    obtain rfl := Option.some.inj hv
    cases value
    all_goals trivial
  | .template fragments, hn => by
    simp only [Eval.step]
    exact (h.step_fragments hc he "" hn).bind fun _ _ => (h.new_string _).someLink
  | .name name, hn => (h.read_name he (hn name List.mem_cons_self)).someLink
  | .array items, hn => by
    simp only [Eval.step]
    refine (h.reserve_items _).bind fun _ _ => ?_
    exact (h.step_items hc he (List.forall_mem_nil _) hn).bind fun _ hi => (free_array hi).someLink
  | .object entries, hn => by
    simp only [Eval.step]
    refine (h.reserve_items _).bind fun _ _ => ?_
    refine (h.step_entries hc he (List.forall_mem_nil _) hn).bind fun _ hi => ?_
    exact (free_object hi).someLink
  | .member e name optional, hn => by
    have hbase : r.Unnamed e.names := hn
    simp only [Eval.step]
    refine (h.as_link _ (h.step hc he hbase)).bind fun link hl => ?_
    split
    · split
      · exact .pure blind_none
      · exact (read_member (hl _ rfl) _).someLink
    · exact .pure blind_none
  | .index e key optional, hn => by
    obtain ⟨hbase, hkey⟩ := ContextRoot.unnamed_append.1 hn
    simp only [Eval.step]
    refine (h.as_link _ (h.step hc he hbase)).bind fun link hl => ?_
    split
    · split
      · exact .pure blind_none
      · exact (h.as_value (h.step hc he hkey)).bind fun _ _ => (read_member (hl _ rfl) _).someLink
    · exact .pure blind_none
  | .call e args optional, hn => by
    obtain ⟨hcallee, hargs⟩ := ContextRoot.unnamed_append.1 hn
    simp only [Eval.step]
    refine (h.as_link _ (h.step hc he hcallee)).bind fun link hl => ?_
    split
    · split
      · exact .pure blind_none
      · refine (h.step_items hc he (List.forall_mem_nil _) hargs).bind fun args ha => ?_
        exact (hc _ args (hl _ rfl) ha).someLink
    · exact .pure blind_none
  | .construct e args, hn => by
    obtain ⟨hcallee, hargs⟩ := ContextRoot.unnamed_append.1 hn
    simp only [Eval.step]
    refine (h.as_value (h.step hc he hcallee)).bind fun callee _ => ?_
    refine (h.step_items hc he (List.forall_mem_nil _) hargs).bind fun args _ => ?_
    exact (h.construct callee args).someLink
  | .unary op e, hn => by
    -- the type of a name is read without evaluating the name
    by_cases hname : ∃ name, op = .typeOf ∧ e = .name name
    · obtain ⟨name, rfl, rfl⟩ := hname
      exact (h.type_of_name (hn name List.mem_cons_self)).someLink
    · have hstep : Eval.step call env (.unary op e) =
          (do return some (applyUnary op (← asValue (Eval.step call env e)))) := by
        rw [Eval.step]
        exact fun name ho hn => hname ⟨name, ho, hn⟩
      have hoperand : r.Unnamed e.names := hn
      rw [hstep]
      refine (h.as_value (h.step hc he hoperand)).bind fun v _ => .pure fun w hw => ?_
      obtain rfl := Option.some.inj hw
      cases op
      all_goals trivial
  | .binary op left right, hn => by
    obtain ⟨hleft, hright⟩ := ContextRoot.unnamed_append.1 hn
    simp only [Eval.step]
    refine (h.as_value (h.step hc he hleft)).bind fun v _ => ?_
    exact (h.as_value (h.step hc he hright)).bind fun w _ => (h.apply_binary op v w).someLink
  | .logical op left right, hn => by
    obtain ⟨hleft, hright⟩ := ContextRoot.unnamed_append.1 hn
    simp only [Eval.step]
    refine (h.as_value (h.step hc he hleft)).bind fun v hv => ?_
    split
    · exact .pure fun w hw => Option.some.inj hw ▸ hv
    · exact (h.as_value (h.step hc he hright)).someLink
  | .conditional test consequent alternate, hn => by
    obtain ⟨htest, hn⟩ := ContextRoot.unnamed_append.1 hn
    obtain ⟨hconsequent, halternate⟩ := ContextRoot.unnamed_append.1 hn
    simp only [Eval.step]
    refine (h.as_value (h.step hc he htest)).bind fun v hv => ?_
    split
    · exact (h.as_value (h.step hc he hconsequent)).someLink
    · exact (h.as_value (h.step hc he halternate)).someLink
  -- a function sees what is in sight where it stands
  | .arrow params body, hn => .pure fun v hv => by
    obtain rfl := Option.some.inj hv
    exact ⟨hn, blindEntries_iff.2 he⟩
termination_by structural e => e

theorem step_items (h : SameBut r s s') (hc : CallsBlindly r s s' call)
    (he : ∀ e ∈ env, e.2.Blind r) {done : List Value} (hd : ∀ v ∈ done, v.Blind r) :
    ∀ {items : List Expr}, r.Unnamed (Expr.itemNames items) →
      Unaffected s s' (fun items => ∀ v ∈ items, v.Blind r) (stepItems call env done items)
  | [], _ => .pure fun v hv => hd v (List.mem_reverse.1 hv)
  | e :: rest, hn => by
    obtain ⟨hfirst, hrest⟩ := ContextRoot.unnamed_append.1 hn
    simp only [stepItems]
    refine (h.as_value (h.step hc he hfirst)).bind fun v hv => ?_
    exact h.step_items hc he (List.forall_mem_cons.2 ⟨hv, hd⟩) hrest
termination_by structural items => items

theorem step_entries (h : SameBut r s s') (hc : CallsBlindly r s s' call)
    (he : ∀ e ∈ env, e.2.Blind r) {done : List (String × Value)} (hd : ∀ e ∈ done, e.2.Blind r) :
    ∀ {entries : List (String × Expr)}, r.Unnamed (Expr.entryNames entries) →
      Unaffected s s' (fun entries => ∀ e ∈ entries, e.2.Blind r)
        (stepEntries call env done entries)
  | [], _ => .pure fun e he => hd e (List.mem_reverse.1 he)
  | (key, e) :: rest, hn => by
    obtain ⟨hfirst, hrest⟩ := ContextRoot.unnamed_append.1 hn
    simp only [stepEntries]
    refine (h.as_value (h.step hc he hfirst)).bind fun v hv => ?_
    exact h.step_entries hc he (List.forall_mem_cons.2 ⟨hv, hd⟩) hrest
termination_by structural entries => entries

theorem step_fragments (h : SameBut r s s') (hc : CallsBlindly r s s' call)
    (he : ∀ e ∈ env, e.2.Blind r) (out : String) :
    ∀ {fragments : List Fragment}, r.Unnamed (Expr.fragmentNames fragments) →
      Unaffected s s' (fun _ => True) (stepFragments call env out fragments)
  | [], _ => .pure trivial
  | .text text :: rest, hn => by
    simp only [stepFragments]
    exact (h.check_bytes _).bind fun _ _ => h.step_fragments hc he _ hn
  | .hole e :: rest, hn => by
    obtain ⟨hfirst, hrest⟩ := ContextRoot.unnamed_append.1 hn
    simp only [stepFragments]
    refine (h.as_value (h.step hc he hfirst)).bind fun v hv => ?_
    exact (h.check_bytes _).bind fun _ _ => h.step_fragments hc he _ hrest
termination_by structural fragments => fragments

end

end

section

variable {call : Caller} (hc : CallsBlindly r s s' call)
include hc

/-- What a closure sees are its variables, which are blind, and names of its body. -/
theorem call_func {f : Func} (hf : f.Blind r) {args : List Value} (ha : ∀ v ∈ args, v.Blind r) :
    Unaffected s s' (Value.Blind r) (callFunc call f args) := by
  cases f with
  | native f => exact h.native hc hf ha
  | stringMethod text method => exact h.string_method hc text method ha
  | arrayMethod mark items method => exact h.array_method hc (blindItems_iff.1 hf) method ha
  | numberMethod x method => exact number_method x method args
  | boolMethod b method =>
    cases method
    all_goals exact .pure trivial
  | dateMethod t method =>
    cases method
    all_goals exact .pure trivial
  | momentMethod m method => exact h.moment_method m method args
  | closure params body env =>
    obtain ⟨hbody, henv⟩ := hf
    have hparams : ∀ e ∈ bindParams params args env, e.2.Blind r := by
      refine List.forall_mem_append.2 ⟨fun e he => ?_, blindEntries_iff.1 henv⟩
      obtain ⟨i, -, rfl⟩ := List.mem_mapIdx.1 (List.mem_reverse.1 he)
      exact blind_arg ha i
    exact h.calling (h.as_value (h.step hc hparams hbody))

theorem call_once {callee : Value} (hv : callee.Blind r) {args : List Value}
    (ha : ∀ v ∈ args, v.Blind r) : Unaffected s s' (Value.Blind r) (callOnce call callee args) := by
  refine h.tick.bind fun _ _ => ?_
  split
  · exact h.call_func hc hv ha
  · split
    · exact h.convert _ ha
    · exact .mismatch
  · exact .mismatch

end

/-- However deep calls are nested, the innermost ones are blind. -/
theorem calls_blindly (fuel : Nat) : CallsBlindly r s s' (callValue fuel) := by
  induction fuel with
  | zero => exact fun _ _ _ _ => .fail
  | succ fuel ih => exact fun callee args hv ha => h.call_once ih hv ha

/-- An expression that does not name the root. -/
theorem run {e : Expr} (hn : r.Unnamed e.names) : Unaffected s s' (Value.Blind r) (run e) :=
  h.as_value (h.step (h.calls_blindly _) (List.forall_mem_nil _) hn)

end SameBut

end Workflow.Eval
