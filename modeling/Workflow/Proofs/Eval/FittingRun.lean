import Workflow.Proofs.Eval.FittingCalls

/-! The values of expressions fit the limits, if the functions that check nothing return no value
that does not. -/
namespace Workflow.Eval

/-- Calls a value as `callValue` does, but does `stop` behind a call of an unchecked function that
returns a value larger than the limits allow. -/
def callChecked (stop : EvalM Value) : (fuel : Nat) → Caller
  | 0, _, _ => exceed .fuel
  | fuel + 1, callee, args => do
    let v ← callOnce (fun callee args => callChecked stop fuel callee args) callee args
    if callee.isUnchecked && !v.fits (← getLimits) then stop else return v

/-- The value of an expression without variables, with checks behind the calls of the functions that
make none. -/
def runChecked (stop : EvalM Value) (e : Expr) : EvalM Value :=
  eval (callChecked stop callFuel) [] e

/-- The limits leave room for small texts, and the roots of the context fit them. -/
structure Setting.Fits (s : Setting) : Prop where
  roomy : s.limits.Roomy
  roots : ∀ x v, named? s.roots x = some v → Eval.Fits s v

namespace Setting.Fits

variable {s : Setting} (h : s.Fits)
include h

theorem lookup {env : Env} (he : ∀ e ∈ env, Eval.Fits s e.2) {name : String} {v : Value}
    (hv : lookup? s env name = some v) : Eval.Fits s v := by
  have hnow := Time.Moment.nearUtc_ofUtc s.now
  rcases lookup?_cases hv with hv | hv | rfl | rfl | ⟨x, rfl⟩ | ⟨space, rfl⟩ | ⟨f, rfl⟩
  · exact he _ hv
  · exact h.roots name v hv
  · exact fits_moment_iff.2 hnow
  · refine fits_moment_iff.2 ?_
    unfold startOfDay
    cases hd : (Time.Moment.ofUtc s.now).startOf? .day with
    | none => exact hnow
    | some m => exact hnow.of_offset_eq (Time.Moment.offset_startOf? hd)
  · rfl
  · rfl
  · rfl

theorem read_name {env : Env} (he : ∀ e ∈ env, Eval.Fits s e.2) (name : String) :
    Ensures s (Eval.Fits s) (readName env name) := by
  refine .look ?_
  cases hv : lookup? s env name with
  | none => exact .fail
  | some v => exact .pure (h.lookup he hv)

/-- The names of the kinds of values are short. -/
theorem type_name (v : Value) : Eval.Fits s (.string v.typeName) := by
  have hnames : ∀ name ∈ ["undefined", "boolean", "number", "string", "function", "object"],
      name.utf8ByteSize ≤ 20 := by decide
  refine h.roomy.allows (hnames _ ?_)
  unfold Value.typeName
  split
  case h_6 => split <;> decide
  all_goals decide

theorem read_member {v : Value} (hv : Eval.Fits s v) (key : String) :
    Ensures s (Eval.Fits s) (readMember v key) := by
  unfold readMember
  split
  · exact .fail
  · exact .pure (fits_member h.roomy hv key)

theorem apply_unary (op : UnaryOp) (v : Value) : Eval.Fits s (applyUnary op v) := by
  cases op
  case typeOf => exact h.type_name v
  all_goals rfl

omit h in
theorem apply_binary (op : BinaryOp) (v w : Value) :
    Ensures s (Eval.Fits s) (applyBinary op v w) := by
  cases op
  case add =>
    show Ensures s _ (add v w)
    unfold add
    split
    · exact .new_string _
    · exact .new_string _
    · exact .pure rfl
  all_goals exact .pure rfl

omit h in
theorem construct (callee : Value) (args : List Value) :
    Ensures s (Eval.Fits s) (construct callee args) := by
  unfold Eval.construct
  split
  · exact .after fun _ => .after fun _ => .pure rfl
  · exact .fail

end Setting.Fits

section

variable {s : Setting} {call : Caller} {env : Env}

/-- All texts in the expression are allowed. -/
abbrev TextsFit (s : Setting) (texts : List Inscription) : Prop :=
  ∀ x ∈ texts, s.limits.allowsText x.text = true

theorem texts_fit_append {texts more : List Inscription} :
    TextsFit s (texts ++ more) ↔ TextsFit s texts ∧ TextsFit s more :=
  List.forall_mem_append

namespace Setting.Fits

mutual

theorem step (h : s.Fits) (hc : CallsFit s call) (he : ∀ e ∈ env, Eval.Fits s e.2) :
    ∀ {e : Expr}, TextsFit s e.texts → Ensures s (Link.Fits s) (step call env e)
  | .literal value, ht => .pure fun v hv => by
    obtain rfl := Option.some.inj hv
    cases value
    case string text => exact ht (.literal text) List.mem_cons_self
    all_goals rfl
  | .template fragments, _ => by
    simp only [Eval.step]
    exact .after fun _ => (Ensures.new_string _).some_link
  | .name name, _ => (h.read_name he name).some_link
  | .array items, ht => by
    simp only [Eval.step]
    -- the length of the literal is checked, and there are as many values
    refine (Ensures.reserve_items _).bind fun _ hlen => ?_
    have hitems := h.step_items hc he (List.forall_mem_nil _) ht
    refine (hitems.and (.of_yields length_of_yields_items)).bind fun values ⟨hv, hsame⟩ => ?_
    refine (Ensures.free_array ?_ hv).some_link
    rwa [hsame, List.length_nil, Nat.zero_add]
  | .object entries, ht => by
    simp only [Eval.step]
    refine (Ensures.reserve_items _).bind fun _ hlen => ?_
    have hentries := h.step_entries hc he (List.forall_mem_nil _) ht
    refine (hentries.and (.of_yields length_of_yields_entries)).bind fun values ⟨hv, hsame⟩ => ?_
    refine (Ensures.free_object ?_ hv).some_link
    rwa [hsame, List.length_nil, Nat.zero_add]
  | .member e name optional, ht => by
    have hbase : TextsFit s e.texts := ht
    simp only [Eval.step]
    refine (Ensures.as_link _ (h.step hc he hbase)).bind fun link hl => ?_
    split
    · split
      · exact .pure nofun
      · exact (h.read_member (hl _ rfl) _).some_link
    · exact .pure nofun
  | .index e key optional, ht => by
    obtain ⟨hbase, -⟩ := texts_fit_append.1 ht
    simp only [Eval.step]
    refine (Ensures.as_link _ (h.step hc he hbase)).bind fun link hl => ?_
    split
    · split
      · exact .pure nofun
      · exact .after fun _ => (h.read_member (hl _ rfl) _).some_link
    · exact .pure nofun
  | .call e args optional, ht => by
    obtain ⟨hcallee, hargs⟩ := texts_fit_append.1 ht
    simp only [Eval.step]
    refine (Ensures.as_link _ (h.step hc he hcallee)).bind fun link hl => ?_
    split
    · split
      · exact .pure nofun
      · refine (h.step_items hc he (List.forall_mem_nil _) hargs).bind fun values hv => ?_
        exact (hc _ values (hl _ rfl) hv).some_link
    · exact .pure nofun
  | .construct e args, _ => by
    simp only [Eval.step]
    exact .after fun callee => .after fun args => (construct callee args).some_link
  | .unary op e, _ => by
    -- the type of a name is read without evaluating the name
    by_cases hname : ∃ name, op = .typeOf ∧ e = .name name
    · obtain ⟨name, rfl, rfl⟩ := hname
      have hread : Ensures s (Eval.Fits s) (typeOfName env name) :=
        Ensures.look (.pure (h.type_name _))
      exact hread.some_link
    · have hstep : Eval.step call env (.unary op e) =
          (do return some (applyUnary op (← asValue (Eval.step call env e)))) := by
        rw [Eval.step]
        exact fun name ho hn => hname ⟨name, ho, hn⟩
      rw [hstep]
      exact .after fun v => .pure fun w hw => Option.some.inj hw ▸ h.apply_unary op v
  | .binary op left right, _ => by
    simp only [Eval.step]
    exact .after fun v => .after fun w => (apply_binary op v w).some_link
  | .logical op left right, ht => by
    obtain ⟨hleft, hright⟩ := texts_fit_append.1 ht
    simp only [Eval.step]
    refine (Ensures.as_value (h.step hc he hleft)).bind fun v hv => ?_
    split
    · exact .pure fun w hw => Option.some.inj hw ▸ hv
    · exact (Ensures.as_value (h.step hc he hright)).some_link
  | .conditional test consequent alternate, ht => by
    obtain ⟨-, ht⟩ := texts_fit_append.1 ht
    obtain ⟨hconsequent, halternate⟩ := texts_fit_append.1 ht
    simp only [Eval.step]
    refine .after fun v => ?_
    split
    · exact (Ensures.as_value (h.step hc he hconsequent)).some_link
    · exact (Ensures.as_value (h.step hc he halternate)).some_link
  -- a function holds on to its body and to the variables in sight
  | .arrow params body, ht => .pure fun v hv => by
    obtain rfl := Option.some.inj hv
    exact fits_closure_iff.2 ⟨ht, he⟩
termination_by structural e => e

theorem step_items (h : s.Fits) (hc : CallsFit s call) (he : ∀ e ∈ env, Eval.Fits s e.2)
    {done : List Value} (hd : ∀ v ∈ done, Eval.Fits s v) :
    ∀ {items : List Expr}, TextsFit s (Expr.itemTexts items) →
      Ensures s (fun values => ∀ v ∈ values, Eval.Fits s v) (stepItems call env done items)
  | [], _ => .pure fun v hv => hd v (List.mem_reverse.1 hv)
  | e :: rest, ht => by
    obtain ⟨hfirst, hrest⟩ := texts_fit_append.1 ht
    simp only [stepItems]
    refine (Ensures.as_value (h.step hc he hfirst)).bind fun v hv => ?_
    exact h.step_items hc he (List.forall_mem_cons.2 ⟨hv, hd⟩) hrest
termination_by structural items => items

theorem step_entries (h : s.Fits) (hc : CallsFit s call) (he : ∀ e ∈ env, Eval.Fits s e.2)
    {done : List (String × Value)} (hd : ∀ e ∈ done, EntryFits s.limits e) :
    ∀ {entries : List (String × Expr)}, TextsFit s (Expr.entryTexts entries) →
      Ensures s (fun values => ∀ e ∈ values, EntryFits s.limits e)
        (stepEntries call env done entries)
  | [], _ => .pure fun e he => hd e (List.mem_reverse.1 he)
  | (key, e) :: rest, ht => by
    obtain ⟨hkey, ht⟩ := List.forall_mem_cons.1 ht
    obtain ⟨hfirst, hrest⟩ := texts_fit_append.1 ht
    simp only [stepEntries]
    refine (Ensures.as_value (h.step hc he hfirst)).bind fun v hv => ?_
    exact h.step_entries hc he (List.forall_mem_cons.2 ⟨⟨hkey, hv⟩, hd⟩) hrest
termination_by structural entries => entries

end

section

variable (h : s.Fits)
include h

/-- What a closure sees are its arguments and the variables where it stands. -/
theorem call_func (hc : CallsFit s call) {f : Func} (hf : Eval.Fits s (.func f))
    (hu : f.isUnchecked = false) {args : List Value} (ha : ∀ v ∈ args, Eval.Fits s v) :
    Ensures s (Eval.Fits s) (callFunc call f args) := by
  cases f with
  | native f => exact Ensures.native hc h.roomy h.roots hu ha
  | stringMethod text method => exact Ensures.string_method h.roomy hf hu args
  | arrayMethod mark items method =>
    obtain ⟨hlen, hi⟩ := fits_arrayMethod_iff.1 hf
    exact Ensures.array_method hc hlen hi method ha
  | numberMethod x method =>
    cases method
    case valueOf => exact .pure rfl
    all_goals cases hu
  | boolMethod b method =>
    cases method
    case valueOf => exact .pure rfl
    case toString =>
      refine .pure (h.roomy.allows ?_)
      cases b
      all_goals decide
  | dateMethod t method =>
    cases method
    case iso => cases hu
    all_goals exact .pure rfl
  | momentMethod m method =>
    have hm : Eval.Fits s (.moment m) := hf
    exact Ensures.moment_method (fits_moment_iff.1 hm) hu args
  | closure params body env =>
    obtain ⟨hbody, henv⟩ := fits_closure_iff.1 hf
    have hparams : ∀ e ∈ bindParams params args env, Eval.Fits s e.2 := by
      refine List.forall_mem_append.2 ⟨fun e he => ?_, henv⟩
      obtain ⟨i, -, rfl⟩ := List.mem_mapIdx.1 (List.mem_reverse.1 he)
      exact fits_arg ha i
    exact (Ensures.as_value (h.step hc hparams hbody)).calling

theorem call_once (hc : CallsFit s call) {callee : Value} (hv : Eval.Fits s callee)
    (hu : callee.isUnchecked = false) {args : List Value} (ha : ∀ v ∈ args, Eval.Fits s v) :
    Ensures s (Eval.Fits s) (callOnce call callee args) := by
  refine .after fun _ => ?_
  split
  · exact h.call_func hc hv hu ha
  · split
    · exact Ensures.convert hu ha
    · exact .fail
  · exact .fail

/-- A call of an unchecked function is checked afterwards; all others need no check. -/
theorem calls_checked {stop : EvalM Value} (hs : Ensures s (Eval.Fits s) stop) (fuel : Nat) :
    CallsFit s (callChecked stop fuel) := by
  induction fuel with
  | zero => exact fun _ _ _ _ => .fail
  | succ fuel ih =>
    intro callee args hv ha
    simp only [callChecked]
    cases hu : callee.isUnchecked with
    | true =>
      refine .after fun v t w t' hw => ?_
      simp only [run_bind, run_get_limits, Bool.true_and, run_ite, run_pure] at hw
      split at hw
      · exact hs _ _ _ hw
      · rename_i hfits
        cases hw
        simpa only [Bool.not_eq_true', Bool.not_eq_false] using hfits
    | false =>
      refine (h.call_once ih hv hu ha).bind fun v hfits t w t' hw => ?_
      simp only [run_bind, run_get_limits, Bool.false_and, Bool.false_eq_true, if_false,
        run_pure] at hw
      cases hw
      exact hfits

/-- The value of an expression, with the missing checks. -/
theorem run_checked {stop : EvalM Value} (hs : Ensures s (Eval.Fits s) stop) {e : Expr}
    (ht : TextsFit s e.texts) : Ensures s (Eval.Fits s) (runChecked stop e) :=
  Ensures.as_value (h.step (h.calls_checked hs _) (List.forall_mem_nil _) ht)

end

end Setting.Fits

end

end Workflow.Eval
