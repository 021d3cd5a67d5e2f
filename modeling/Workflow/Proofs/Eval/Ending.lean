import Workflow.Expr.Parser
import Workflow.Proofs.Eval.Callbacks
import Workflow.Proofs.Eval.CutShort
import Workflow.Proofs.Eval.Settling

/-! When evaluations end by themselves. The limits bound how often expressions are evaluated inside
one another, and in between callbacks use up the weight of values: functions of the language call
parts of their receivers and arguments, with parts of them, and only `reduce` hands on what the calls
before returned. Evaluations end exactly if the calls of `reduce` inside one another are bounded, and
there is an expression for which they are not. -/
namespace Workflow.Eval

mutual

def Value.weight : Value → Nat
  | .array _ items => 1 + weights items
  | .func f => f.weight
  | _ => 1

def Func.weight : Func → Nat
  | .arrayMethod _ items _ => 1 + 2 * weights items
  | _ => 2

def weights : List Value → Nat
  | [] => 0
  | v :: items => v.weight + weights items

end

/-- A call weighs as much as the callee and the arguments that can be called from it. -/
def callWeight (f : Value) (args : List Value) : Nat :=
  f.weight + (Value.arg args 0).weight + (Value.arg args 1).weight

theorem weight_pos (v : Value) : 0 < v.weight := by
  cases v with
  | func f =>
    cases f
    all_goals simp only [Value.weight, Func.weight]; omega
  | _ => simp only [Value.weight]; omega

theorem weight_le_of_mem {v : Value} {items : List Value} (hv : v ∈ items) :
    v.weight ≤ weights items := by
  induction items with
  | nil => cases hv
  | cons w items ih =>
    simp only [weights]
    rcases List.mem_cons.1 hv with rfl | hv
    · omega
    · have h := ih hv
      omega

/-- The items of a collection weigh no more than it does. -/
theorem weight_le_of_items_of {v w : Value} {items : List Value} (h : Yields (itemsOf v) items)
    (hw : w ∈ items) : w.weight ≤ v.weight := by
  unfold itemsOf at h
  split at h
  · rw [eq_of_yields_pure h] at hw
    have hle := weight_le_of_mem hw
    simp only [Value.weight]
    omega
  · rw [eq_of_yields_pure h] at hw
    obtain ⟨c, _, rfl⟩ := List.mem_map.1 hw
    exact Nat.le_refl 1
  · obtain ⟨_, _, h⟩ := yields_bind h
    rw [eq_of_yields_pure h] at hw
    rw [List.eq_of_mem_replicate hw]
    exact Nat.le_refl 1
  · rw [eq_of_yields_pure h] at hw
    cases hw

/-- Whether a value is a `reduce` with its receiver. -/
def isReduce : Value → Bool
  | .func (.arrayMethod _ _ .reduce) => true
  | _ => false

/-- Every callback weighs less than the call that it is made from, but for those of `reduce`. -/
theorem call_weight_lt {f : Func} {args given : List Value} {g : Value}
    (h : Callback f args g given) (hf : isReduce (.func f) = false) :
    callWeight g given < callWeight (.func f) args := by
  have h0 := weight_pos (.arg args 0)
  have h1 := weight_pos (.arg args 1)
  -- the receiver counts twice, since two of its items can be compared
  cases h with
  | @item mark items m _ v hv i =>
    have hle := weight_le_of_mem hv
    have hpos := weight_pos v
    show (Value.arg args 0).weight + v.weight + 1 <
      1 + 2 * weights items + (Value.arg args 0).weight + (Value.arg args 1).weight
    omega
  | sum hv i sum => cases hf
  | @pair mark items _ a b ha hb =>
    have hla := weight_le_of_mem ha
    have hlb := weight_le_of_mem hb
    show (Value.arg args 0).weight + a.weight + b.weight <
      1 + 2 * weights items + (Value.arg args 0).weight + (Value.arg args 1).weight
    omega
  | @listed _ items v hitems hv i =>
    have hle := weight_le_of_items_of hitems hv
    show (Value.arg args 1).weight + v.weight + 1 <
      2 + (Value.arg args 0).weight + (Value.arg args 1).weight
    omega
  | @occurrence s m _ pattern =>
    show (Value.arg args 1).weight + 1 + 1 <
      2 + (Value.arg args 0).weight + (Value.arg args 1).weight
    omega

/-- Calls a value as `callValue` does, but with at most `reduces` calls of `reduce` inside one
another; one more does `stop` instead. -/
def callWithin (stop : EvalM Value) : (reduces fuel : Nat) → Caller
  | _, 0, _, _ => exceed .fuel
  | reduces, fuel + 1, callee, args =>
    if isReduce callee then
      match reduces with
      | 0 => stop
      | reduces + 1 => callOnce (fun f args => callWithin stop reduces fuel f args) callee args
    else callOnce (fun f args => callWithin stop reduces fuel f args) callee args

/-- The value of an expression with at most `reduces` calls of `reduce` inside one another. -/
def runWithin (stop : EvalM Value) (reduces fuel : Nat) (e : Expr) : EvalM Value :=
  eval (callWithin stop reduces fuel) [] e

variable {stop : EvalM Value} {s : Setting}

/-- A call settles if all calls at greater depths do, and its callbacks. -/
theorem call_once_settles {callers : Nat → Caller} {callee : Value} {args : List Value} {t : Meter}
    (hdeep : t.depth < s.limits.nesting → ∀ f args, ∀ t' : Meter, t.depth < t'.depth →
      Settles (fun fuel => callers fuel f args) s t')
    (hcall : ∀ f, callee = .func f → ∀ g given, Callback f args g given → ∀ t' : Meter,
      t.depth ≤ t'.depth → Settles (fun fuel => callers fuel g given) s t') :
    Settles (fun fuel => callOnce (callers fuel) callee args) s t := by
  refine .bind (.of_call_free .tick) fun _ _ t' _ ht => ?_
  cases callee
  case func f =>
    by_cases hf : ∃ params body env, f = .closure params body env
    · obtain ⟨params, body, env, rfl⟩ := hf
      refine .calling fun t₁ h₁ => .deeper nofun fun t₂ h₂ hn => ?_
      have hbody := calls_only_step (bindParams params args env) body
      refine .bind ((hbody.settles fun f args _ t₃ h₃ => ?_) t₂ (Nat.le_refl _))
        fun _ _ _ _ _ => .of_call_free (.pure _)
      exact hdeep (by omega) f args t₃ (by omega)
    · have hc := calls_only_callback (f := f) args fun params body env he =>
        hf ⟨params, body, env, he⟩
      exact hc.settles (hcall f rfl) t' (by omega)
  case space n => exact .of_call_free (.space n args)
  all_goals exact .of_call_free (.mismatch _)

theorem call_within_no_reduce {callee : Value} (h : isReduce callee = false) (reduces fuel : Nat)
    (args : List Value) : callWithin stop reduces (fuel + 1) callee args =
      callOnce (callWithin stop reduces fuel) callee args := by
  simp only [callWithin, h, Bool.false_eq_true, if_false]

theorem call_within_zero {callee : Value} (h : isReduce callee = true) (fuel : Nat)
    (args : List Value) : callWithin stop 0 (fuel + 1) callee args = stop := by
  simp only [callWithin, h, if_true]

theorem call_within_succ {callee : Value} (h : isReduce callee = true) (reduces fuel : Nat)
    (args : List Value) : callWithin stop (reduces + 1) (fuel + 1) callee args =
      callOnce (callWithin stop reduces fuel) callee args := by
  simp only [callWithin, h, if_true]

/-- Calls settle if those of `reduce` do. Between two evaluations every other callback uses up
weight. -/
theorem call_within_settles_of_reduce {room reduces : Nat}
    (hdeep : ∀ t : Meter, s.limits.nesting ≤ t.depth + room → t.depth < s.limits.nesting →
      ∀ f args, ∀ t' : Meter, t.depth < t'.depth →
        Settles (fun fuel => callWithin stop reduces fuel f args) s t')
    (hreduce : ∀ f args, isReduce f = true → ∀ t : Meter, s.limits.nesting ≤ t.depth + room →
      Settles (fun fuel => callWithin stop reduces fuel f args) s t)
    (callee : Value) (args : List Value) (t : Meter) (ht : s.limits.nesting ≤ t.depth + room) :
    Settles (fun fuel => callWithin stop reduces fuel callee args) s t := by
  induction hw : callWeight callee args using Nat.strongRecOn generalizing callee args t with
  | ind weight ih =>
    cases hr : isReduce callee with
    | true => exact hreduce callee args hr t ht
    | false =>
      apply Settles.of_succ
      simp only [call_within_no_reduce hr]
      apply call_once_settles (hdeep t ht)
      intro f hf g given hc t' ht'
      subst hf
      have hlt : callWeight g given < weight := hw ▸ call_weight_lt hc hr
      exact ih _ hlt g given t' (by omega) rfl

/-- Calls at a depth settle if those at greater depths do. Every call of `reduce` leaves one less for
the calls that are made from it. -/
theorem call_within_settles_of_deeper (room : Nat) (hstop : ∀ t, Ends t.depth (stop s t))
    (hdeep : ∀ t : Meter, s.limits.nesting ≤ t.depth + room → t.depth < s.limits.nesting →
      ∀ reduces f args, ∀ t' : Meter, t.depth < t'.depth →
        Settles (fun fuel => callWithin stop reduces fuel f args) s t')
    (reduces : Nat) (callee : Value) (args : List Value) (t : Meter)
    (ht : s.limits.nesting ≤ t.depth + room) :
    Settles (fun fuel => callWithin stop reduces fuel callee args) s t := by
  induction reduces generalizing callee args t with
  | zero =>
    -- none may be open any more, and one more call stops
    refine call_within_settles_of_reduce (fun t h hn => hdeep t h hn 0) ?_ callee args t ht
    intro f args hf t _
    apply Settles.of_succ
    simp only [call_within_zero hf]
    exact .of_ends (hstop t)
  | succ reduces ih =>
    refine call_within_settles_of_reduce (fun t h hn => hdeep t h hn (reduces + 1)) ?_ callee args t
      ht
    intro f args hf t ht
    apply Settles.of_succ
    simp only [call_within_succ hf]
    exact call_once_settles (fun h => hdeep t ht h reduces) fun _ _ g given _ t' ht' =>
      ih g given t' (by omega)

/-- With a bound on the calls of `reduce` inside one another every call settles. -/
theorem call_within_settles (hstop : ∀ t, Ends t.depth (stop s t)) (room reduces : Nat)
    (callee : Value) (args : List Value) (t : Meter) (ht : s.limits.nesting ≤ t.depth + room) :
    Settles (fun fuel => callWithin stop reduces fuel callee args) s t := by
  -- the room below the depth bounds how often expressions are evaluated inside one another
  induction room generalizing reduces callee args t with
  | zero =>
    refine call_within_settles_of_deeper 0 hstop (fun t h hn => ?_) reduces callee args t ht
    omega
  | succ room ih =>
    refine call_within_settles_of_deeper (room + 1) hstop (fun t h hn => ?_) reduces callee args t ht
    exact fun reduces f args t' ht' => ih reduces f args t' (by omega)

theorem run_within_settles (hstop : ∀ t, Ends t.depth (stop s t)) (reduces : Nat) (e : Expr)
    (t : Meter) : Settles (fun fuel => runWithin stop reduces fuel e) s t := by
  refine (calls_only_eval [] e).settles (fun f args _ t' _ => ?_) t (Nat.le_refl _)
  exact call_within_settles hstop s.limits.nesting reduces f args t' (by omega)

/-- Within the bound that the fuel sets anyway there is no difference. -/
theorem call_within_eq {reduces fuel : Nat} (h : fuel ≤ reduces) :
    callWithin stop reduces fuel = callValue fuel := by
  induction fuel generalizing reduces with
  | zero => rfl
  | succ fuel ih =>
    funext callee args
    cases hr : isReduce callee with
    | true =>
      obtain ⟨k, rfl⟩ : ∃ k, reduces = k + 1 := ⟨reduces - 1, by omega⟩
      rw [call_within_succ hr, ih (by omega)]
      rfl
    | false =>
      rw [call_within_no_reduce hr, ih (by omega)]
      rfl

/-- The fault of an evaluation that runs out of fuel. -/
def Fault.IsFuel (fault : Fault) : Prop :=
  fault = .exceeded .fuel

/-- Calls that do not run out of fuel have the same results with more fuel and with a bound. -/
theorem call_value_cut_short_within {fuel fuel' reduces : Nat} (h : fuel ≤ fuel')
    (hr : fuel ≤ reduces) (callee : Value) (args : List Value) :
    CutShort Fault.IsFuel s s (callValue fuel callee args)
      (callWithin stop reduces fuel' callee args) := by
  induction fuel generalizing fuel' reduces callee args with
  | zero => exact fun t => Or.inr ⟨_, _, rfl, rfl⟩
  | succ fuel ih =>
    obtain ⟨k, rfl⟩ : ∃ k, fuel' = k + 1 := ⟨fuel' - 1, by omega⟩
    have hc {reduces : Nat} (h' : fuel ≤ reduces) :
        CutShort Fault.IsFuel s s (callOnce (callValue fuel) callee args)
          (callOnce (callWithin stop reduces k) callee args) :=
      (calls_only_once callee args).cut_short (comparable_refl _ s)
        fun f args _ => ih (by omega) h' f args
    cases hr' : isReduce callee with
    | true =>
      obtain ⟨j, rfl⟩ : ∃ j, reduces = j + 1 := ⟨reduces - 1, by omega⟩
      rw [call_within_succ hr']
      exact hc (by omega)
    | false =>
      rw [call_within_no_reduce hr']
      exact hc (by omega)

/-- An evaluation that does not run out of fuel ends the same way with more fuel and with a bound. -/
theorem run_with_cut_short_within {fuel fuel' reduces : Nat} (h : fuel ≤ fuel')
    (hr : fuel ≤ reduces) (e : Expr) :
    CutShort Fault.IsFuel s s (runWith fuel e) (runWithin stop reduces fuel' e) :=
  (calls_only_eval [] e).cut_short (comparable_refl _ s)
    fun f args _ => call_value_cut_short_within h hr f args

theorem run_within_eq {reduces fuel : Nat} (h : fuel ≤ reduces) (e : Expr) :
    runWithin stop reduces fuel e = runWith fuel e := by
  unfold runWithin runWith
  rw [call_within_eq h]

/-- Evaluations end exactly if the calls of `reduce` inside one another are bounded, that is if it
makes no difference, with any fuel, what one call more than the bound would do. -/
theorem ends_iff_reduces_bounded (s : Setting) (e : Expr) :
    (∃ fuel, ∀ t, runWith fuel e s {} ≠ .error (.exceeded .fuel) t) ↔
      ∃ reduces, ∀ stop fuel, runWithin stop reduces fuel e s {} = runWith fuel e s {} := by
  constructor
  -- fuel that is enough bounds all calls, and so those of `reduce`
  · rintro ⟨n, hn⟩
    refine ⟨n, fun stop fuel => ?_⟩
    by_cases hle : fuel ≤ n
    · rw [run_within_eq hle]
    · have hvalue : CutShort Fault.IsFuel s s (runWith n e) (runWithin stop fuel fuel e) :=
        run_with_cut_short_within (by omega) (by omega) e
      have hwithin : CutShort Fault.IsFuel s s (runWith n e) (runWithin stop n fuel e) :=
        run_with_cut_short_within (by omega) (Nat.le_refl n) e
      rw [run_within_eq (Nat.le_refl fuel)] at hvalue
      rcases hvalue {} with he | ⟨_, t, he, rfl⟩
      · rcases hwithin {} with he' | ⟨_, t, he', rfl⟩
        · rw [← he, ← he']
        · exact absurd he' (hn t)
      · exact absurd he (hn t)
  -- what one more would do can be chosen to be an end that is not for want of fuel
  · rintro ⟨reduces, h⟩
    have hstop (t : Meter) : Ends t.depth ((exceed .chain : EvalM Value) s t) := nofun
    obtain ⟨n, r, hr, hn⟩ := run_within_settles hstop reduces e {}
    refine ⟨n, fun t he => ?_⟩
    have hrun : runWithin (exceed .chain) reduces n e s {} = r := hn n (Nat.le_refl n)
    rw [h, he] at hrun
    rw [← hrun] at hr
    exact hr rfl

/-- An evaluation that runs out of fuel. -/
def RunsOut {α : Type} (m : EvalM α) (s : Setting) (t : Meter) : Prop :=
  ∃ t', m s t = .error (.exceeded .fuel) t'

namespace RunsOut

variable {α β : Type} {s : Setting} {t : Meter}

theorem left {m : EvalM α} (hm : RunsOut m s t) (f : α → EvalM β) : RunsOut (m >>= f) s t := by
  obtain ⟨t', h⟩ := hm
  refine ⟨t', ?_⟩
  rw [run_bind, h]

theorem right {m : EvalM α} {f : α → EvalM β} {a : α} {t' : Meter} (hm : m s t = .ok a t')
    (hf : RunsOut (f a) s t') : RunsOut (m >>= f) s t := by
  obtain ⟨t'', h⟩ := hf
  refine ⟨t'', ?_⟩
  rw [run_bind, hm]
  exact h

theorem map {m : EvalM α} (hm : RunsOut m s t) (g : α → β) : RunsOut (g <$> m) s t := by
  rw [map_eq_pure_bind]
  exact hm.left _

theorem deeper {m : EvalM α} {cause : Nat → Excess} {t' : Meter} (ht : tick s t = .ok () t')
    (hn : t'.depth + 1 ≤ s.limits.nesting)
    (hm : RunsOut m s { t' with depth := t'.depth + 1 }) : RunsOut (deeper cause m) s t := by
  obtain ⟨t'', h⟩ := hm
  refine ⟨{ t'' with depth := t''.depth - 1 }, ?_⟩
  rw [run_deeper, ht]
  dsimp only
  rw [if_neg (by omega), h]

theorem calling {m : EvalM α} (hn : t.calls + 1 ≤ s.limits.maxDepth)
    (hm : RunsOut m s { t with calls := t.calls + 1 }) : RunsOut (calling m) s t := by
  obtain ⟨t', h⟩ := hm
  refine ⟨{ t' with calls := t'.calls - 1 }, ?_⟩
  rw [run_calling, if_neg (by omega), h]

end RunsOut

/-- Returns the method `reduce` of its last argument. -/
def reduceOf : Expr :=
  .arrow ["x", "y", "i", "arr"] (.member (.name "arr") "reduce" false)

/-- The method `reduce` of an array of nothing and the function. The first item cannot be called, so
only the second one makes the method call itself. -/
def endlessMethod : Expr :=
  .member (.array [.literal .null, .name "f"]) "reduce" false

/-- Calls the method with itself and the function `f`, here `reduceOf`. -/
def endless : Expr :=
  .call (.arrow ["f"] (.call endlessMethod [endlessMethod, .name "f"] false)) [reduceOf] false

theorem parse_endless : Expr.parse 64
    "(f => [null, f].reduce([null, f].reduce, f))((x, y, i, arr) => arr.reduce)" = .ok endless := by
  with_unfolding_all rfl

/-- The value of `reduceOf` among variables. -/
def reduceOfIn (env : Env) : Value :=
  .func (.closure ["x", "y", "i", "arr"] (.member (.name "arr") "reduce" false) env)

/-- The items of the arrays: nothing, and the function that returns the method. -/
def endlessItems (env : Env) : List Value :=
  [.null, reduceOfIn env]

/-- The method of such an array. -/
def endlessReduce (env : Env) (m : Mark) : Value :=
  .func (.arrayMethod m (endlessItems env) .reduce)

section Endless

variable {s : Setting} (h : ∀ ticks, s.elapsed ticks < s.limits.timeoutMs) (env : Env)
include h

theorem call_reduce_of (t : Meter) (hcalls : t.calls < s.limits.maxDepth)
    (hdepth : t.depth + 2 ≤ s.limits.nesting) (a b c : Value) (m : Mark) (items : List Value)
    (fuel : Nat) : callValue (fuel + 1) (reduceOfIn env) [a, b, c, .array m items] s t =
      .ok (.func (.arrayMethod m items .reduce)) { t with ticks := t.ticks + 3 } := by
  have h1 : ¬s.limits.maxDepth ≤ t.calls := by omega
  have h2 : ¬s.limits.nesting < t.depth + 1 := by omega
  have h3 : ¬s.limits.nesting < t.depth + 1 + 1 := by omega
  have hname (t : Meter) : readName (bindParams ["x", "y", "i", "arr"] [a, b, c, .array m items] env)
      "arr" s t = .ok (.array m items) t := rfl
  have hmember (t : Meter) : readMember (.array m items) "reduce" s t =
      .ok (.func (.arrayMethod m items .reduce)) t := rfl
  simp only [callValue, callOnce, reduceOfIn, callFunc, eval, asValue, step, asLink, isChain,
    map_eq_pure_bind, run_bind, run_pure, run_tick_of_clock h, run_calling, run_deeper, hname,
    hmember, h1, h2, h3, if_false, Bool.false_eq_true, Bool.false_and, Option.getD_some,
    Nat.add_sub_cancel]

/-- The method calls the callback for both items. -/
theorem call_endless_reduce (fuel : Nat) (m : Mark) (f start : Value) (args : List Value)
    (hf : f.isFunction = true) (t : Meter) :
    callValue (fuel + 1) (endlessReduce env m) (f :: start :: args) s t =
      (do let sum ← callValue fuel f [start, .null, .ofNat 0, .array m (endlessItems env)]
          callValue fuel f [sum, reduceOfIn env, .ofNat 1, .array m (endlessItems env)]) s
        { t with ticks := t.ticks + 1 } := by
  have hc : callback (f :: start :: args) 0 "reduce" = pure f := if_pos hf
  have hm : arrayMethod (callValue fuel) m (endlessItems env) .reduce (f :: start :: args) =
      callback (f :: start :: args) 0 "reduce" >>= fun f => reduceFrom (callValue fuel f)
        (fun i => [.ofNat i, .array m (endlessItems env)]) 0 start (endlessItems env) := rfl
  show (tick >>= fun _ =>
    arrayMethod (callValue fuel) m (endlessItems env) .reduce (f :: start :: args)) s t = _
  rw [run_bind, run_tick_of_clock h, hm, hc, pure_bind]
  unfold endlessItems
  simp only [reduceFrom, bind_pure]

/-- The method calls the function for both items, and so returns the method of the array that the
function is given. -/
theorem endless_reduce_with_reduce_of (m : Mark) (args : List Value) (fuel : Nat) (t : Meter)
    (hcalls : t.calls < s.limits.maxDepth) (hdepth : t.depth + 2 ≤ s.limits.nesting) :
    callValue (fuel + 2) (endlessReduce env m) (reduceOfIn env :: .null :: args) s t =
      .ok (endlessReduce env m) { t with ticks := t.ticks + 7 } := by
  have h0 := call_reduce_of h env { t with ticks := t.ticks + 1 } hcalls hdepth .null .null
    (.ofNat 0) m (endlessItems env) fuel
  have h1 := call_reduce_of h env { t with ticks := t.ticks + 4 } hcalls hdepth (endlessReduce env m)
    (reduceOfIn env) (.ofNat 1) m (endlessItems env) fuel
  rw [call_endless_reduce h env _ _ _ _ _ rfl, run_bind, h0]
  exact h1

/-- No fuel is enough for the method called with itself and the function. -/
theorem endless_reduce_runs_out (fuel : Nat) (m m' : Mark) (args : List Value) (t : Meter)
    (hcalls : t.calls < s.limits.maxDepth) (hdepth : t.depth + 2 ≤ s.limits.nesting) :
    ∃ t', callValue fuel (endlessReduce env m) (endlessReduce env m' :: reduceOfIn env :: args) s t =
      .error (.exceeded .fuel) t' := by
  induction fuel generalizing m m' args t with
  | zero => exact ⟨t, rfl⟩
  | succ fuel ih =>
    -- the call for the first item returns the method, so that the one for the second is such a call
    rw [call_endless_reduce h env _ _ _ _ _ rfl, run_bind]
    match fuel with
    | 0 => exact ⟨_, rfl⟩
    | 1 =>
      rw [call_endless_reduce h env _ _ _ _ _ rfl]
      exact ⟨_, rfl⟩
    | fuel + 2 =>
      have hr := endless_reduce_with_reduce_of h env m' [.ofNat 0, .array m (endlessItems env)] fuel
        { t with ticks := t.ticks + 1 } hcalls hdepth
      rw [hr]
      exact ih m' m' _ _ hcalls hdepth

/-- Where there is room, the method is made of a new array. -/
theorem step_endless_method (call : Caller) (t : Meter) (hdepth : t.depth + 2 ≤ s.limits.nesting)
    (hlength : 2 ≤ s.limits.maxCollectionLength)
    (htotal : t.allocated + 2 ≤ s.limits.maxTotalElements)
    (hmax : t.allocated + 2 ≤ Number.maxSize) :
    step call [("f", reduceOfIn env)] endlessMethod s t =
      .ok (some (endlessReduce env { origin := .made t.made }))
        { t with ticks := t.ticks + 4, allocated := t.allocated + 2, made := t.made + 1 } := by
  have h1 : ¬s.limits.nesting < t.depth + 1 := by omega
  have h2 : ¬s.limits.nesting < t.depth + 1 + 1 := by omega
  have h3 : ¬s.limits.maxCollectionLength < 2 := by omega
  have h4 : ¬s.limits.maxTotalElements < t.allocated + 2 := by omega
  have h5 : min (t.allocated + 2) Number.maxSize = t.allocated + 2 := by omega
  have hname (t : Meter) : readName [("f", reduceOfIn env)] "f" s t = .ok (reduceOfIn env) t := rfl
  have hmark (t : Meter) : freshMark s t =
      .ok { origin := .made t.made } { t with made := t.made + 1 } := rfl
  have hmember (t : Meter) (m : Mark) (items : List Value) : readMember (.array m items) "reduce" s t =
      .ok (.func (.arrayMethod m items .reduce)) t := rfl
  simp only [endlessMethod, step, stepItems, asLink, isChain, asValue, reserveItems, freeArray,
    map_eq_pure_bind, run_bind, run_pure, run_tick_of_clock h, run_deeper, run_check_length,
    run_charge, hname, hmark, hmember, h1, h2, h3, h4, h5, if_false, Bool.false_eq_true,
    Bool.false_and, Option.getD_some, Nat.add_sub_cancel, List.length_cons, List.length_nil,
    Nat.zero_add, Nat.reduceAdd]
  rfl

/-- The arguments are the method, made of another array, and the function. -/
theorem step_endless_call (call : Caller) (t : Meter) (hdepth : t.depth + 3 ≤ s.limits.nesting)
    (hlength : 2 ≤ s.limits.maxCollectionLength)
    (htotal : t.allocated + 4 ≤ s.limits.maxTotalElements)
    (hmax : t.allocated + 4 ≤ Number.maxSize) :
    step call [("f", reduceOfIn env)] (.call endlessMethod [endlessMethod, .name "f"] false) s t =
      (some <$> call (endlessReduce env { origin := .made t.made })
        [endlessReduce env { origin := .made (t.made + 1) }, reduceOfIn env]) s
        { t with ticks := t.ticks + 11, allocated := t.allocated + 4, made := t.made + 2 } := by
  have h1 : ¬s.limits.nesting < t.depth + 1 := by omega
  have hname (t : Meter) : readName [("f", reduceOfIn env)] "f" s t = .ok (reduceOfIn env) t := rfl
  have hchain : isChain endlessMethod = true := rfl
  have hm (t' : Meter) (hd : t'.depth = t.depth + 1) (ha : t'.allocated ≤ t.allocated + 2) :=
    step_endless_method h env call t' (by omega) hlength (by omega) (by omega)
  simp only [step, stepItems, asLink, hchain, asValue, map_eq_pure_bind, run_bind, run_pure,
    run_tick_of_clock h, run_deeper, h1, hm, hname, if_true, if_false, Bool.false_eq_true,
    Bool.false_and, Option.getD_some, Nat.add_sub_cancel, Nat.le_add_right, Nat.le_refl]
  rfl

/-- The argument of the outer call is the function. -/
theorem step_endless (call : Caller) (t : Meter) (hdepth : t.depth + 1 ≤ s.limits.nesting) :
    step call env endless s t =
      (some <$> call
        (.func (.closure ["f"] (.call endlessMethod [endlessMethod, .name "f"] false) env))
        [reduceOfIn env]) s { t with ticks := t.ticks + 2 } := by
  have h1 : ¬s.limits.nesting < t.depth + 1 := by omega
  simp only [endless, reduceOf, step, stepItems, asLink, isChain, asValue, map_eq_pure_bind, run_bind,
    run_pure, run_tick_of_clock h, run_deeper, h1, if_false, Bool.false_eq_true, Bool.false_and,
    Option.getD_some, Nat.add_sub_cancel]
  rfl

/-- No fuel is enough for the expression, if there is room for the steps up to the first call of the
method. -/
theorem endless_runs_out (fuel : Nat) (hdepth : 5 ≤ s.limits.nesting)
    (hcalls : 2 ≤ s.limits.maxDepth) (hlength : 2 ≤ s.limits.maxCollectionLength)
    (htotal : 4 ≤ s.limits.maxTotalElements) : RunsOut (runWith fuel endless) s {} := by
  refine .deeper (run_tick_of_clock h _) (by simp only; omega) (.left ?_ _)
  unfold RunsOut
  rw [step_endless h [] (callValue fuel) _ (by simp only; omega)]
  refine RunsOut.map ?_ _
  cases fuel with
  | zero => exact ⟨_, rfl⟩
  | succ fuel =>
    refine .right (run_tick_of_clock h _) (.calling (by simp only; omega) ?_)
    refine .deeper (run_tick_of_clock h _) (by simp only; omega) (.left ?_ _)
    show ∃ t', step (callValue fuel) [("f", reduceOfIn [])]
      (.call endlessMethod [endlessMethod, .name "f"] false) s _ = _
    rw [step_endless_call h [] (callValue fuel) _ (by simp only; omega) hlength
      (by simp only; omega) (by decide)]
    refine RunsOut.map ?_ _
    exact endless_reduce_runs_out h [] fuel _ _ [] _ (by simp only; omega) (by simp only; omega)

end Endless

/-- The text of the expression can be read, but no limit and no fuel is enough for its value, unless
the clock runs. -/
theorem not_every_evaluation_ends :
    plainSetting.limits = {} ∧ (∀ ticks, plainSetting.elapsed ticks = 0) ∧
      ∃ e, Expr.parse plainSetting.limits.maxDepth
          "(f => [null, f].reduce([null, f].reduce, f))((x, y, i, arr) => arr.reduce)" = .ok e ∧
        ¬ ∃ fuel, ∀ t, runWith fuel e plainSetting {} ≠ .error (.exceeded .fuel) t := by
  refine ⟨rfl, fun _ => rfl, endless, parse_endless, ?_⟩
  rintro ⟨fuel, hf⟩
  obtain ⟨t, ht⟩ := endless_runs_out elapsed_plainSetting fuel (by decide) (by decide) (by decide)
    (by decide)
  exact hf t ht

end Workflow.Eval
