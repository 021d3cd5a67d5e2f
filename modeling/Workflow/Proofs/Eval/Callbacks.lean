import Workflow.Proofs.Eval.CallsOnly

/-! What functions and expressions call. A function of the language calls only a callback, with
arguments that `Callback` lists; an expression can call anything. -/
namespace Workflow.Eval

/-- A function `f` of the language that is called with `args` can call `g` with `given`. -/
inductive Callback : (f : Func) → (args : List Value) → (g : Value) → (given : List Value) → Prop
  | item {mark : Mark} {items : List Value} {m : ArrayMethod} {args : List Value} {v : Value} :
    v ∈ items → ∀ i, Callback (.arrayMethod mark items m) args (.arg args 0)
      [v, .ofNat i, .array mark items]
  | sum {mark : Mark} {items : List Value} {args : List Value} {v : Value} :
    v ∈ items → ∀ i sum, Callback (.arrayMethod mark items .reduce) args (.arg args 0)
      [sum, v, .ofNat i, .array mark items]
  | pair {mark : Mark} {items : List Value} {args : List Value} {a b : Value} :
    a ∈ items → b ∈ items → Callback (.arrayMethod mark items .sort) args (.arg args 0) [a, b]
  | listed {args items : List Value} {v : Value} :
    Yields (itemsOf (.arg args 0)) items → v ∈ items → ∀ i,
      Callback (.native .arrayFrom) args (.arg args 1) [v, .ofNat i]
  | occurrence {s : String} {m : StringMethod} {args : List Value} (pattern : String) :
    Callback (.stringMethod s m) args (.arg args 1) [.string pattern]

theorem calls_only_collect (args : List Value) :
    CallsOnly (Callback (.native .arrayFrom) args) fun call => collect call args := by
  unfold collect
  refine .andThen (.free (.itemsOf _)) fun items ⟨_, hitems⟩ => ?_
  refine .bind (.free (.reserveItems _)) fun _ => ?_
  split
  · exact .free (.freeArray _)
  · refine .with_callback _ _ _ ?_
    exact .bind (.map_from _ (fun v hv i => .listed hitems hv i) _ _) fun _ =>
      .free (.freeArray _)

theorem calls_only_string_method (s : String) (m : StringMethod) (args : List Value) :
    CallsOnly (Callback (.stringMethod s m) args) fun call => stringMethod call s m args := by
  cases m
  case replace =>
    exact .bind (.replace_first _ _ fun _ => .occurrence _) fun _ => .free (.newString _)
  case replaceAll =>
    exact .bind (.replace_all _ _ fun _ => .occurrence _) fun _ => .free (.newString _)
  case split => exact .free (.splitText _ _)
  case padStart | padEnd => exact .free (.pad _ _ _)
  case «repeat» => exact .free (.repeated _ _)
  case concat => exact .free (.newString _)
  case «at» =>
    unfold stringMethod
    dsimp only
    split
    · exact .pure _
    · exact .pure _
  all_goals exact .pure _

/-- Sorting by a function, or by the texts of the items. -/
theorem calls_only_sort (mark : Mark) (items args : List Value) :
    CallsOnly (Callback (.arrayMethod mark items .sort) args) fun call =>
      comparison call args >>= fun behind => sortItems behind items := by
  -- which comparison it is does not depend on the way to call
  by_cases ha : Value.arg args 0 = .undefined
  · have he (call : Caller) : (comparison call args >>= fun behind => sortItems behind items) =
        sortItems (fun a b => pure (a.goesBehind b)) items := by
      unfold comparison
      rw [ha, pure_bind]
    simp only [he]
    exact .sort_items (fun _ a b => pure (a.goesBehind b)) items fun a _ b _ => .pure _
  · have he (call : Caller) : (comparison call args >>= fun behind => sortItems behind items) =
        (callback args 0 "sort" >>= fun f =>
          sortItems (fun a b => do return 0.0 < (← call f [a, b]).toNumber) items) := by
      unfold comparison
      split
      · contradiction
      · rw [bind_assoc]
        simp only [pure_bind]
    simp only [he]
    refine .andThen (.free (.callback _ _ _)) fun f ⟨_, hf⟩ => ?_
    obtain rfl := yields_callback hf
    exact .sort_items _ items fun a ha b hb => .bind (.call (.pair ha hb)) fun _ => .pure _

theorem calls_only_array_method (mark : Mark) (items : List Value) (m : ArrayMethod)
    (args : List Value) : CallsOnly (Callback (.arrayMethod mark items m) args) fun call =>
      arrayMethod call mark items m args := by
  have hitem (v : Value) (hv : v ∈ items) (i : Nat) :
      Callback (.arrayMethod mark items m) args (.arg args 0) [v, .ofNat i, .array mark items] :=
    .item hv i
  cases m
  case map | flatMap =>
    refine .with_callback _ _ _ ?_
    exact .bind (.map_from items hitem 0 []) fun _ => .free (.newArray _)
  case filter =>
    refine .with_callback _ _ _ ?_
    exact .bind (.filter_from items hitem 0 []) fun _ => .free (.freeArray _)
  case find | findIndex | some | every =>
    refine .with_callback _ _ _ ?_
    exact .bind (.search_from _ items hitem 0) fun _ => .pure _
  case forEach =>
    refine .with_callback _ _ _ ?_
    exact .for_each_from items hitem 0
  case reduce =>
    refine .with_callback _ _ _ ?_
    split
    · exact .reduce_from _ (fun v hv i sum => .sum hv i sum) _ _
    · refine .reduce_from _ (fun v hv i sum => ?_) _ _
      exact .sum (List.mem_cons_of_mem _ hv) i sum
    · exact .free (.mismatch _)
  case sort =>
    unfold arrayMethod
    dsimp only
    simp only [← bind_assoc]
    exact .bind (calls_only_sort mark items args) fun _ => .free (.freeArray _)
  case join | toString => exact .bind (.free (.joinFrom _ _ _ _)) fun _ => .free (.newString _)
  case concat => exact .bind (.free (.concatFrom _ _)) fun _ => .free (.newArray _)
  case slice | reverse => exact .free (.freeArray _)
  case flat => exact .free (.newArray _)
  all_goals exact .pure _

theorem native_congr {f : Native} (hf : f ≠ .arrayFrom) (call call' : Caller) (args : List Value) :
    f.apply call args = f.apply call' args := by
  cases f
  case arrayFrom => exact absurd rfl hf
  all_goals rfl

/-- A function of the language calls nothing but its callback. -/
theorem calls_only_callback {f : Func} (args : List Value)
    (hf : ∀ params body env, f ≠ .closure params body env) :
    CallsOnly (Callback f args) fun call => callFunc call f args := by
  cases f with
  | native f =>
    -- all others are the same whatever the way to call, so that any will do
    by_cases ha : f = .arrayFrom
    · subst ha
      exact calls_only_collect args
    · have he (call : Caller) : callFunc call (.native f) args = f.apply default args :=
        native_congr ha call default args
      simp only [he]
      exact .free (.native ha default args)
  | stringMethod s m => exact calls_only_string_method s m args
  | arrayMethod mark items m => exact calls_only_array_method mark items m args
  | numberMethod x m => exact .free (.numberMethod x m args)
  | boolMethod b m =>
    cases m
    case valueOf => exact .pure _
    case toString => exact .pure _
  | dateMethod t m => exact .pure _
  | momentMethod t m => exact .free (.momentMethod t m args)
  | closure params body env => exact absurd rfl (hf params body env)

/-- Allows every call. -/
def anything (_ : Value) (_ : List Value) : Prop :=
  True

namespace CallsOnly

variable {allowed : Value → List Value → Prop} {m : Caller → EvalM Link}

theorem as_value (hm : CallsOnly allowed m) : CallsOnly allowed fun call => asValue (m call) :=
  deeper nofun (bind hm fun _ => pure _)

theorem as_link (isChain : Bool) (hm : CallsOnly allowed m) :
    CallsOnly allowed fun call => asLink isChain (m call) := by
  cases isChain with
  | true =>
    have hd : CallsOnly allowed fun call => Eval.deeper (fun _ => .chain) (m call) :=
      deeper nofun hm
    exact hd
  | false => exact map _ hm.as_value

end CallsOnly

mutual

theorem calls_only_step (env : Env) : ∀ e : Expr, CallsOnly anything fun call => step call env e
  | .literal value => .pure _
  | .template fragments => by
    simp only [step]
    exact .bind (calls_only_fragments env "" fragments) fun _ => .map _ (.free (.newString _))
  | .name name => .map _ (.free (.readName env name))
  | .array items => by
    simp only [step]
    apply CallsOnly.bind (.free (.reserveItems _))
    intro _
    exact .bind (calls_only_items env [] items) fun _ => .map _ (.free (.freeArray _))
  | .object entries => by
    simp only [step]
    apply CallsOnly.bind (.free (.reserveItems _))
    intro _
    exact .bind (calls_only_entries env [] entries) fun _ => .map _ (.free (.freeObject _))
  | .member e name optional => by
    simp only [step]
    apply CallsOnly.bind (.as_link _ (calls_only_step env e))
    intro link
    split
    · split
      · exact .pure _
      · exact .map _ (.free (.readMember _ _))
    · exact .pure _
  | .index e key optional => by
    simp only [step]
    apply CallsOnly.bind (.as_link _ (calls_only_step env e))
    intro link
    split
    · split
      · exact .pure _
      · apply CallsOnly.bind (.as_value (calls_only_step env key))
        intro key
        exact .map _ (.free (.readMember _ _))
    · exact .pure _
  | .call e args optional => by
    simp only [step]
    apply CallsOnly.bind (.as_link _ (calls_only_step env e))
    intro link
    split
    · split
      · exact .pure _
      · apply CallsOnly.bind (calls_only_items env [] args)
        intro args
        exact .map _ (.call trivial)
    · exact .pure _
  | .construct e args => by
    simp only [step]
    apply CallsOnly.bind (.as_value (calls_only_step env e))
    intro callee
    exact .bind (calls_only_items env [] args) fun _ => .map _ (.free (.construct _ _))
  | .unary op e => by
    -- the type of a name is read without evaluating the name
    by_cases h : ∃ name, op = .typeOf ∧ e = .name name
    · obtain ⟨name, rfl, rfl⟩ := h
      exact .map _ (.free (.typeOfName env name))
    · have he (call : Caller) : step call env (.unary op e) =
          (do return some (applyUnary op (← asValue (step call env e)))) := by
        rw [step]
        exact fun name ho hn => h ⟨name, ho, hn⟩
      simp only [he]
      exact .bind (.as_value (calls_only_step env e)) fun _ => .pure _
  | .binary op left right => by
    simp only [step]
    apply CallsOnly.bind (.as_value (calls_only_step env left))
    intro v
    apply CallsOnly.bind (.as_value (calls_only_step env right))
    intro w
    exact .map _ (.free (.applyBinary _ _ _))
  | .logical op left right => by
    simp only [step]
    apply CallsOnly.bind (.as_value (calls_only_step env left))
    intro v
    split
    · exact .pure _
    · exact .map _ (.as_value (calls_only_step env right))
  | .conditional test consequent alternate => by
    simp only [step]
    apply CallsOnly.bind (.as_value (calls_only_step env test))
    intro v
    split
    · exact .map _ (.as_value (calls_only_step env consequent))
    · exact .map _ (.as_value (calls_only_step env alternate))
  | .arrow params body => .pure _
termination_by structural e => e

theorem calls_only_items (env : Env) (done : List Value) :
    ∀ items : List Expr, CallsOnly anything fun call => stepItems call env done items
  | [] => .pure _
  | e :: rest => by
    simp only [stepItems]
    apply CallsOnly.bind (.as_value (calls_only_step env e))
    intro v
    exact calls_only_items env (v :: done) rest
termination_by structural items => items

theorem calls_only_entries (env : Env) (done : List (String × Value)) :
    ∀ entries : List (String × Expr), CallsOnly anything fun call => stepEntries call env done entries
  | [] => .pure _
  | (key, e) :: rest => by
    simp only [stepEntries]
    apply CallsOnly.bind (.as_value (calls_only_step env e))
    intro v
    exact calls_only_entries env ((key, v) :: done) rest
termination_by structural entries => entries

theorem calls_only_fragments (env : Env) (out : String) :
    ∀ fragments : List Fragment, CallsOnly anything fun call => stepFragments call env out fragments
  | [] => .pure _
  | .text s :: rest => by
    simp only [stepFragments]
    exact .bind (.free (.checkBytes _)) fun _ => calls_only_fragments env _ rest
  | .hole e :: rest => by
    simp only [stepFragments]
    apply CallsOnly.bind (.as_value (calls_only_step env e))
    intro v
    exact .bind (.free (.checkBytes _)) fun _ => calls_only_fragments env _ rest
termination_by structural fragments => fragments

end

theorem calls_only_eval (env : Env) (e : Expr) : CallsOnly anything fun call => eval call env e :=
  .as_value (calls_only_step env e)

theorem calls_only_func (f : Func) (args : List Value) :
    CallsOnly anything fun call => callFunc call f args := by
  by_cases hf : ∃ params body env, f = .closure params body env
  · obtain ⟨params, body, env, rfl⟩ := hf
    exact .calling (calls_only_eval _ body)
  · refine .mono (fun _ _ _ => trivial) (calls_only_callback (f := f) args ?_)
    exact fun params body env he => hf ⟨params, body, env, he⟩

theorem calls_only_once (callee : Value) (args : List Value) :
    CallsOnly anything fun call => callOnce call callee args := by
  unfold callOnce
  apply CallsOnly.bind (.free .tick)
  intro _
  split
  · exact calls_only_func _ args
  · exact .free (.space _ args)
  · exact .free (.mismatch _)

end Workflow.Eval
