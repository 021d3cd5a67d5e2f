import Workflow.Eval.Run
import Workflow.Proofs.Eval.Alike

/-! Runs of functions and expressions that are alike. -/
namespace Workflow.Eval

variable {ρ : Renaming} {s : Setting}

/-- Calls with values that differ in their marks are alike. -/
def CallsAlike (ρ : Renaming) (s : Setting) (call call' : Caller) : Prop :=
  ∀ f args, ValuesAlike ρ s (call f args)
    (call' (f.relabel ρ.map) (args.map (Value.relabel ρ.map)))

/-- The roots of the context keep their marks. -/
def Renaming.KeepsRoots (ρ : Renaming) (s : Setting) : Prop :=
  ∀ x v, named? s.roots x = some v → v.relabel ρ.map = v

namespace CallsAlike

variable {call call' : Caller} (hc : CallsAlike ρ s call call')
include hc

theorem with_replacement (pattern : String) (replacer : Value) (out : String) :
    SameResults ρ s (withReplacement call pattern replacer out)
      (withReplacement call' pattern (replacer.relabel ρ.map) out) := by
  have hr : SameResults ρ s (replacement call pattern replacer)
      (replacement call' pattern (replacer.relabel ρ.map)) := by
    unfold replacement
    rw [Value.isFunction_relabel, Value.display_relabel]
    split
    · exact (hc replacer [.string pattern]).bind fun v => .pure v.display_relabel
    · exact .pure rfl
  exact hr.andThen fun _ => (Alike.check_bytes _).andThen fun _ => .pure rfl

theorem interleave (replacer : Value) (out : String) (text : List Char) :
    SameResults ρ s (interleave call replacer out text)
      (interleave call' (replacer.relabel ρ.map) out text) := by
  induction text generalizing out with
  | nil => exact hc.with_replacement _ _ _
  | cons c text ih => exact (hc.with_replacement _ _ _).andThen fun _ => ih _

theorem replace_all_from (pattern : List Char) (replacer : Value) (out : String)
    (text : List Char) : SameResults ρ s (replaceAllFrom call pattern replacer out text)
      (replaceAllFrom call' pattern (replacer.relabel ρ.map) out text) := by
  induction out, text using replaceAllFrom.induct pattern with
  | case1 out text hempty =>
    rw [replaceAllFrom, replaceAllFrom, dif_pos hempty, dif_pos hempty]
    exact .pure rfl
  | case2 out text hsome hcut =>
    rw [replaceAllFrom, replaceAllFrom, dif_neg hsome, dif_neg hsome]
    split
    · exact .pure rfl
    · simp_all only [reduceCtorEq]
  | case3 out text hsome before after hcut ih =>
    rw [replaceAllFrom, replaceAllFrom, dif_neg hsome, dif_neg hsome]
    split
    · exact .pure rfl
    · refine (hc.with_replacement _ _ _).andThen fun out => ?_
      simp_all only [Option.some.injEq, Prod.mk.injEq]

theorem replace_first (pattern : List Char) (replacer : Value) (text : List Char) :
    SameResults ρ s (replaceFirst call pattern replacer text)
      (replaceFirst call' pattern (replacer.relabel ρ.map) text) := by
  unfold replaceFirst
  split
  · exact .pure rfl
  · exact (hc.with_replacement _ _ _).andThen fun _ => .pure rfl

theorem replace_all (pattern : List Char) (replacer : Value) (text : List Char) :
    SameResults ρ s (replaceAll call pattern replacer text)
      (replaceAll call' pattern (replacer.relabel ρ.map) text) := by
  unfold replaceAll
  split
  · exact hc.interleave _ _ _
  · exact hc.replace_all_from _ _ _ _

theorem string_method (text : String) (method : StringMethod) (args : List Value) :
    ValuesAlike ρ s (stringMethod call text method args)
      (stringMethod call' text method (args.map (Value.relabel ρ.map))) := by
  unfold stringMethod
  simp only [arg_relabel, Value.display_relabel, sliceOf_relabel, substringOf_relabel,
    position_relabel, charAt?_relabel, single?_relabel]
  cases method
  case indexOf | lastIndexOf => exact .pure (relabel_orMinusOne _).symm
  case replace => exact (hc.replace_first _ _ _).andThen fun _ => .new_string _
  case replaceAll => exact (hc.replace_all _ _ _).andThen fun _ => .new_string _
  case split => exact .split_text _ _
  case padStart | padEnd => exact .pad _ _ _
  case «repeat» => exact .repeated _ _
  case concat =>
    rw [List.foldl_map]
    simp only [Value.write_relabel]
    exact .new_string _
  case «at» =>
    dsimp only
    split
    · exact .pure rfl
    · exact .pure rfl
  all_goals exact .pure rfl

theorem collect (args : List Value) :
    ValuesAlike ρ s (collect call args) (collect call' (args.map (Value.relabel ρ.map))) := by
  unfold Eval.collect
  rw [arg_relabel, List.length_map]
  refine (Alike.items_of _).bind fun items => ?_
  rw [List.length_map]
  refine (Alike.reserve_items _).andThen fun _ => ?_
  split
  · exact .free_array rfl
  · refine (Alike.callback args 1 _).bind fun f => ?_
    have hrest (i : Nat) : [Value.ofNat i] = [Value.ofNat i].map (Value.relabel ρ.map) := rfl
    exact (Alike.map_from (hc f) hrest 0 [] items).bind fun items => .free_array rfl

omit hc in
theorem parts_of_entries (entries : List (String × Value)) :
    (entries.map (relabelEntry ρ.map)).map (fun (key, v) => [Value.string key, v]) =
      (entries.map fun (key, v) => [.string key, v]).map (List.map (Value.relabel ρ.map)) := by
  rw [List.map_map, List.map_map]
  rfl

theorem native (hs : ρ.KeepsRoots s) (f : Native) (args : List Value) :
    ValuesAlike ρ s (f.apply call args)
      (f.apply call' (args.map (Value.relabel ρ.map))) := by
  unfold Native.apply
  simp only [arg_relabel, Value.display_relabel, Value.toNumber_relabel, radixOf_relabel,
    numbers_relabel, entriesOf_relabel, ofParts?_relabel, List.isEmpty_map]
  cases f
  case encodeURIComponent | encodeURI => exact .new_string _
  case stringFromCharCode =>
    dsimp only
    rw [List.filterMap_map, funext charOfCode?_relabel (f := charOfCode? ∘ Value.relabel ρ.map)]
    exact .new_string _
  case decodeURIComponent | decodeURI => exact .decode_uri _ _
  case nodeHelper helper => 
    refine .look (.pure ?_)
    have hroot : ((named? s.roots "$node").getD .undefined).relabel ρ.map =
        (named? s.roots "$node").getD .undefined := by
      cases hv : named? s.roots "$node" with
      | none => rfl
      | some v => exact hs _ v hv
    rw [relabel_nodeHelper, hroot]
  case jsonStringify => exact .stringify _
  case jsonParse => exact .parse_json _
  case objectKeys =>
    refine .free_array ?_
    rw [List.map_map, List.map_map]
    rfl
  case objectValues =>
    refine .free_array ?_
    rw [List.map_map, List.map_map]
    rfl
  case objectEntries =>
    refine Alike.fresh_mark.bind fun mark => .pure ?_
    rw [parts_of_entries, relabel_array, relabel_ofLists]
  case objectAssign =>
    have hmerged : (args.map (Value.relabel ρ.map)).flatMap entriesOf =
        (args.flatMap entriesOf).map (relabelEntry ρ.map) := by
      rw [List.flatMap_map, List.map_flatMap]
      exact congrArg (List.flatMap · args) (funext entriesOf_relabel)
    dsimp only
    rw [hmerged, ofList_relabel, List.length_map]
    exact (Alike.reserve_items _).andThen fun _ => .free_object _
  case objectFromEntries =>
    dsimp only
    have hpairs (items : List Value) : (items.map (Value.relabel ρ.map)).filterMap pair? =
        (items.filterMap pair?).map (relabelEntry ρ.map) := by
      rw [List.filterMap_map, List.map_filterMap]
      exact congrArg (List.filterMap · items) (funext pair?_relabel)
    cases Value.arg args 0 with
    | array m items =>
      rw [relabel_array]
      dsimp only
      rw [hpairs]
      exact .free_object _
    | _ => exact .free_object []
  case arrayFrom => exact hc.collect args
  case arrayOf => exact .new_array rfl
  case arrayIsArray | numberIsInteger | numberIsFinite | numberIsNaN =>
    cases Value.arg args 0
    all_goals exact .pure rfl
  case dateNow | dateTimeNow => exact .look (.pure rfl)
  case dateTimeUtc =>
    dsimp only
    split
    · exact .look (.pure rfl)
    · exact (Alike.orOutOfRange _ _).andThen fun _ => .pure rfl
  case dateTimeFromISO | dateTimeFromMillis =>
    exact (Alike.orOutOfRange _ _).andThen fun _ => .pure rfl
  case dateTimeFromJSDate =>
    cases Value.arg args 0
    case date t => exact .pure rfl
    all_goals exact .outOfRange
  all_goals exact .pure rfl

theorem sorted (args items : List Value) : Alike ρ s (List.map (Value.relabel ρ.map))
    (comparison call args >>= fun behind => sortItems behind items)
    (comparison call' (args.map (Value.relabel ρ.map)) >>= fun behind =>
      sortItems behind (items.map (Value.relabel ρ.map))) := by
  have hbehind (f a b : Value) : SameResults ρ s
      (do return decide (0.0 < (← call f [a, b]).toNumber))
      (do return decide (0.0 <
        (← call' (f.relabel ρ.map) [a.relabel ρ.map, b.relabel ρ.map]).toNumber)) := by
    refine (hc f [a, b]).bind fun v => .pure ?_
    rw [Value.toNumber_relabel]
    rfl
  have hgiven {args : List Value} (hf : Value.arg args 0 ≠ .undefined) (call : Caller) :
      comparison call args = (do
        let f ← callback args 0 "sort"
        return fun a b => do return 0.0 < (← call f [a, b]).toNumber) := by
    unfold comparison
    split
    · contradiction
    · rfl
  -- without a function the texts of the items are compared, which have no marks
  by_cases hf : Value.arg args 0 = .undefined
  · have htexts (args : List Value) (h : Value.arg args 0 = .undefined) (call : Caller) :
        comparison call args = pure fun a b => pure (a.goesBehind b) := by
      unfold comparison
      rw [h]
    rw [htexts args hf, htexts _ (by rw [arg_relabel, hf]; rfl), pure_bind, pure_bind]
    exact .sort_items (fun a b => .pure (h := id) (Value.goesBehind_relabel a b)) items
  · have hf' : Value.arg (args.map (Value.relabel ρ.map)) 0 ≠ .undefined := by
      rw [arg_relabel]
      exact mt Value.relabel_eq_undefined_iff.1 hf
    rw [hgiven hf, hgiven hf', bind_assoc, bind_assoc]
    exact (Alike.callback args 0 _).bind fun f => .sort_items (hbehind f) items

theorem array_method (mark : Mark) (items : List Value) (method : ArrayMethod)
    (args : List Value) : ValuesAlike ρ s (arrayMethod call mark items method args)
      (arrayMethod call' (mark.relabel ρ.map) (items.map (Value.relabel ρ.map)) method
        (args.map (Value.relabel ρ.map))) := by
  have hrest (i : Nat) : [Value.ofNat i, (.array (mark.relabel ρ.map)
      (items.map (Value.relabel ρ.map)))] =
        [Value.ofNat i, .array mark items].map (Value.relabel ρ.map) := by
    rw [List.map_cons, List.map_singleton, relabel_array]
    rfl
  unfold arrayMethod
  simp only [arg_relabel]
  cases method
  case map =>
    refine (Alike.callback args 0 _).bind fun f => ?_
    exact (Alike.map_from (hc f) hrest 0 [] items).bind fun _ => .new_array rfl
  case flatMap =>
    refine (Alike.callback args 0 _).bind fun f => ?_
    exact (Alike.map_from (hc f) hrest 0 [] items).bind fun results => .new_flat 1 results
  case filter =>
    refine (Alike.callback args 0 _).bind fun f => ?_
    exact (Alike.filter_from (hc f) hrest 0 [] items).bind fun _ => .free_array rfl
  case find =>
    refine (Alike.callback args 0 _).bind fun f => ?_
    refine (Alike.search_from (hc f) hrest _ 0 items).bind fun found => .pure ?_
    cases found
    all_goals rfl
  case findIndex =>
    refine (Alike.callback args 0 _).bind fun f => ?_
    refine (Alike.search_from (hc f) hrest _ 0 items).bind fun found => .pure ?_
    cases found
    all_goals rfl
  case some | every =>
    refine (Alike.callback args 0 _).bind fun f => ?_
    refine (Alike.search_from (hc f) hrest _ 0 items).bind fun found => .pure ?_
    cases found
    all_goals rfl
  case forEach =>
    exact (Alike.callback args 0 _).bind fun f => Alike.for_each_from (hc f) hrest 0 items
  case reduce =>
    refine (Alike.callback args 0 _).bind fun f => ?_
    rw [List.getElem?_map]
    cases args[1]? with
    | some start => exact Alike.reduce_from (hc f) hrest 0 start items
    | none =>
      cases items with
      | nil => exact .mismatch
      | cons v items => exact Alike.reduce_from (hc f) hrest 1 v items
  case sort =>
    simp only [← bind_assoc]
    exact (hc.sorted args items).bind fun _ => .free_array rfl
  case includes =>
    refine .pure ?_
    rw [any_relabel (p := (·.sameItem (Value.arg args 0)))
      fun v => Value.sameItem_relabel ρ.injective v _]
    rfl
  case indexOf =>
    refine .pure ?_
    rw [findIdx?_relabel (p := (·.strictEq (Value.arg args 0)))
      fun v => Value.strictEq_relabel ρ.injective v _, relabel_orMinusOne]
  case lastIndexOf =>
    refine .pure ?_
    rw [lastPosition?_relabel (p := (·.strictEq (Value.arg args 0)))
      fun v => Value.strictEq_relabel ρ.injective v _, relabel_orMinusOne]
  case join =>
    generalize Value.arg args 0 = first
    cases first with
    | array m inner =>
      have hseparator := Value.display_relabel (g := ρ.map) (.array m inner)
      rw [relabel_array] at hseparator ⊢
      dsimp only
      rw [hseparator]
      exact (Alike.join_from _ _ _ _).andThen fun _ => .new_string _
    | _ => exact (Alike.join_from _ _ _ _).andThen fun _ => .new_string _
  case toString => exact (Alike.join_from _ _ _ _).andThen fun _ => .new_string _
  case concat => exact (Alike.concat_from items args).bind fun _ => .new_array rfl
  case slice =>
    refine .free_array ?_
    rw [sliceOf_relabel, sliceOf_map]
  case reverse => exact .free_array List.map_reverse.symm
  case flat =>
    generalize Value.arg args 0 = first
    cases first with
    | array m inner =>
      have hdepth := Value.toInteger_relabel (g := ρ.map) (.array m inner)
      rw [relabel_array] at hdepth ⊢
      dsimp only
      rw [hdepth]
      exact .new_flat _ items
    | _ => exact .new_flat _ items
  case «at» =>
    refine .pure ?_
    rw [single?_relabel, List.length_map, ← getD_relabel, Option.map_bind]
    simp only [List.getElem?_map]
    rfl

end CallsAlike

namespace Alike

section

variable {call call' : Caller} {env : Env}

theorem read_name (hs : ρ.KeepsRoots s) (env : Env) (name : String) :
    ValuesAlike ρ s (readName env name) (readName (env.map (relabelEntry ρ.map)) name) := by
  refine .look ?_
  rw [lookup?_relabel hs]
  cases lookup? s env name with
  | none => exact .fail
  | some v => exact .pure rfl

theorem type_of_name (hs : ρ.KeepsRoots s) (env : Env) (name : String) :
    ValuesAlike ρ s (typeOfName env name) (typeOfName (env.map (relabelEntry ρ.map)) name) := by
  refine .look (.pure ?_)
  rw [lookup?_relabel hs, getD_relabel, Value.typeName_relabel]
  rfl

theorem read_member (v : Value) (key : String) :
    ValuesAlike ρ s (readMember v key) (readMember (v.relabel ρ.map) key) := by
  unfold readMember
  rw [Value.isNullish_relabel]
  split
  · exact .mismatch
  · exact .pure (member_relabel v key)

theorem add (v w : Value) :
    ValuesAlike ρ s (add v w) (add (v.relabel ρ.map) (w.relabel ρ.map)) := by
  unfold Eval.add
  rw [Value.toPrimitive_relabel, Value.toPrimitive_relabel]
  split
  · exact .new_string _
  · exact .new_string _
  · exact .pure rfl

theorem apply_binary (op : BinaryOp) (v w : Value) :
    ValuesAlike ρ s (applyBinary op v w)
      (applyBinary op (v.relabel ρ.map) (w.relabel ρ.map)) := by
  unfold applyBinary
  simp only [arithmetic_relabel, compare_relabel, Value.looseEq_relabel ρ.injective,
    Value.strictEq_relabel ρ.injective]
  cases op
  case add => exact Alike.add v w
  all_goals exact .pure rfl

theorem construct (callee : Value) (args : List Value) :
    ValuesAlike ρ s (construct callee args)
      (construct (callee.relabel ρ.map) (args.map (Value.relabel ρ.map))) := by
  have hspace (space : Namespace) : ValuesAlike ρ s (Eval.construct (.space space) args)
      (Eval.construct (.space space) (args.map (Value.relabel ρ.map))) := by
    cases space
    case date =>
      refine .look ?_
      rw [constructDate?_relabel]
      exact (Alike.orOutOfRange _ _).andThen fun _ => .pure rfl
    all_goals exact .mismatch
  cases callee with
  | space space => exact hspace space
  | _ => exact .mismatch

mutual

theorem step (hs : ρ.KeepsRoots s) (hc : CallsAlike ρ s call call') (env : Env) (e : Expr) :
    Alike ρ s (Link.relabel ρ.map) (step call env e)
      (step call' (env.map (relabelEntry ρ.map)) e) := by
  cases e with
  | literal value =>
    refine .pure ?_
    cases value
    all_goals rfl
  | template fragments =>
    simp only [Eval.step]
    exact (step_fragments hs hc env "" fragments).andThen fun _ => (Alike.new_string _).some_link
  | name name => exact (read_name hs env name).some_link
  | array items =>
    simp only [Eval.step]
    refine (Alike.reserve_items _).andThen fun _ => ?_
    exact (step_items hs hc env [] items).bind fun _ => (Alike.free_array rfl).some_link
  | object entries =>
    simp only [Eval.step]
    refine (Alike.reserve_items _).andThen fun _ => ?_
    exact (step_entries hs hc env [] entries).bind fun _ => (Alike.free_object _).some_link
  | member e name optional =>
    simp only [Eval.step]
    refine (Alike.as_link _ (step hs hc env e)).bind fun link => ?_
    -- a chain that ends early does so in both runs
    cases link with
    | none => exact .pure rfl
    | some base =>
      dsimp only [Link.relabel, Option.map_some]
      rw [Value.isNullish_relabel]
      split
      · exact .pure rfl
      · exact (read_member base name).some_link
  | index e key optional =>
    simp only [Eval.step]
    refine (Alike.as_link _ (step hs hc env e)).bind fun link => ?_
    cases link with
    | none => exact .pure rfl
    | some base =>
      dsimp only [Link.relabel, Option.map_some]
      rw [Value.isNullish_relabel]
      split
      · exact .pure rfl
      · refine (Alike.as_value (step hs hc env key)).bind fun key => ?_
        rw [Value.display_relabel]
        exact (read_member base _).some_link
  | call e args optional =>
    simp only [Eval.step]
    refine (Alike.as_link _ (step hs hc env e)).bind fun link => ?_
    cases link with
    | none => exact .pure rfl
    | some callee =>
      dsimp only [Link.relabel, Option.map_some]
      rw [Value.isNullish_relabel]
      split
      · exact .pure rfl
      · exact (step_items hs hc env [] args).bind fun args => (hc callee args).some_link
  | construct e args =>
    simp only [Eval.step]
    refine (Alike.as_value (step hs hc env e)).bind fun callee => ?_
    exact (step_items hs hc env [] args).bind fun args => (construct callee args).some_link
  | unary op e =>
    -- the type of a name is read without evaluating the name
    by_cases hname : ∃ name, op = .typeOf ∧ e = .name name
    · obtain ⟨name, rfl, rfl⟩ := hname
      exact (type_of_name hs env name).some_link
    · have hstep (call : Caller) (env : Env) : Eval.step call env (.unary op e) =
          (do return some (applyUnary op (← asValue (Eval.step call env e)))) := by
        rw [Eval.step]
        exact fun name ho hn => hname ⟨name, ho, hn⟩
      rw [hstep, hstep]
      refine (Alike.as_value (step hs hc env e)).bind fun v => .pure ?_
      rw [relabel_applyUnary]
      cases op
      all_goals rfl
  | binary op left right =>
    simp only [Eval.step]
    refine (Alike.as_value (step hs hc env left)).bind fun v => ?_
    exact (Alike.as_value (step hs hc env right)).bind fun w => (apply_binary op v w).some_link
  | logical op left right =>
    simp only [Eval.step]
    refine (Alike.as_value (step hs hc env left)).bind fun v => ?_
    have hdecided : isDecided op (v.relabel ρ.map) = isDecided op v := by
      unfold isDecided
      rw [Value.isTruthy_relabel, Value.isNullish_relabel]
    rw [hdecided]
    split
    · exact .pure rfl
    · exact (Alike.as_value (step hs hc env right)).some_link
  | conditional test consequent alternate =>
    simp only [Eval.step]
    refine (Alike.as_value (step hs hc env test)).bind fun v => ?_
    rw [Value.isTruthy_relabel]
    split
    · exact (Alike.as_value (step hs hc env consequent)).some_link
    · exact (Alike.as_value (step hs hc env alternate)).some_link
  -- a function keeps the variables in sight, with the marks of its own run
  | arrow params body =>
    refine .pure ?_
    show some (Value.func (.closure params body _)) = some (.func (Func.relabel ρ.map _))
    rw [relabel_closure]
termination_by structural e

theorem step_items (hs : ρ.KeepsRoots s) (hc : CallsAlike ρ s call call') (env : Env)
    (done : List Value) (items : List Expr) :
    Alike ρ s (List.map (Value.relabel ρ.map)) (stepItems call env done items)
      (stepItems call' (env.map (relabelEntry ρ.map)) (done.map (Value.relabel ρ.map)) items) := by
  cases items with
  | nil => exact .pure List.map_reverse.symm
  | cons e rest =>
    simp only [stepItems]
    refine (Alike.as_value (step hs hc env e)).bind fun v => ?_
    exact step_items hs hc env (v :: done) rest
termination_by structural items

theorem step_entries (hs : ρ.KeepsRoots s) (hc : CallsAlike ρ s call call') (env : Env)
    (done : List (String × Value)) (entries : List (String × Expr)) :
    Alike ρ s (List.map (relabelEntry ρ.map)) (stepEntries call env done entries)
      (stepEntries call' (env.map (relabelEntry ρ.map)) (done.map (relabelEntry ρ.map))
        entries) := by
  cases entries with
  | nil => exact .pure List.map_reverse.symm
  | cons entry rest =>
    obtain ⟨key, e⟩ := entry
    simp only [stepEntries]
    refine (Alike.as_value (step hs hc env e)).bind fun v => ?_
    exact step_entries hs hc env ((key, v) :: done) rest
termination_by structural entries

theorem step_fragments (hs : ρ.KeepsRoots s) (hc : CallsAlike ρ s call call') (env : Env)
    (out : String) (fragments : List Fragment) :
    SameResults ρ s (stepFragments call env out fragments)
      (stepFragments call' (env.map (relabelEntry ρ.map)) out fragments) := by
  cases fragments with
  | nil => exact .pure rfl
  | cons fragment rest =>
    cases fragment with
    | text piece =>
      simp only [stepFragments]
      exact (Alike.check_bytes _).andThen fun _ => step_fragments hs hc env _ rest
    | hole e =>
      simp only [stepFragments]
      refine (Alike.as_value (step hs hc env e)).bind fun v => ?_
      rw [Value.write_relabel]
      exact (Alike.check_bytes _).andThen fun _ => step_fragments hs hc env _ rest
termination_by structural fragments

end

end

theorem call_func {call call' : Caller} (hs : ρ.KeepsRoots s) (hc : CallsAlike ρ s call call')
    (f : Func) (args : List Value) :
    ValuesAlike ρ s (callFunc call f args)
      (callFunc call' (f.relabel ρ.map) (args.map (Value.relabel ρ.map))) := by
  cases f with
  | native f => exact hc.native hs f args
  | stringMethod text m => exact hc.string_method text m args
  | arrayMethod mark items m =>
    rw [relabel_arrayMethod]
    exact hc.array_method mark items m args
  | numberMethod x m => exact .number_method x m args
  | boolMethod b m =>
    cases m
    all_goals exact .pure rfl
  | dateMethod t m =>
    refine .pure ?_
    cases m
    all_goals rfl
  | momentMethod t m => exact .moment_method t m args
  | closure params body env =>
    rw [relabel_closure]
    show ValuesAlike ρ s (Eval.calling (Eval.eval _ _ _)) (Eval.calling (Eval.eval _ _ _))
    rw [bindParams_relabel]
    exact (Alike.as_value (Alike.step hs hc _ body)).calling

theorem call_once {call call' : Caller} (hs : ρ.KeepsRoots s) (hc : CallsAlike ρ s call call') :
    CallsAlike ρ s (callOnce call) (callOnce call') := by
  intro f args
  refine tick.andThen fun _ => ?_
  cases f with
  | func f => exact call_func hs hc f args
  | space space =>
    show ValuesAlike ρ s (if space.isCallable then _ else _) (if space.isCallable then _ else _)
    split
    · exact .convert space args
    · exact .mismatch
  | _ => exact .mismatch

/-- Calls are alike, however deep they can be nested in each run. -/
theorem call_value (hs : ρ.KeepsRoots s) (fuel fuel' : Nat) :
    CallsAlike ρ s (callValue fuel) (callValue fuel') := by
  induction fuel generalizing fuel' with
  | zero => exact fun f args => ⟨nofun, nofun⟩
  | succ fuel ih =>
    intro f args
    -- without fuel the other run has no result, but this one gives out marks all the same
    cases fuel' with
    | zero => exact ⟨(call_once hs (ih fuel) f args).grows, nofun⟩
    | succ fuel' => exact call_once hs (ih fuel') f args

end Alike

end Workflow.Eval
