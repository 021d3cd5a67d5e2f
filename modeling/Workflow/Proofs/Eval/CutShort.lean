import Workflow.Proofs.Eval.Callbacks
import Workflow.Proofs.Eval.Meter

/-! Two runs side by side, the first of which may be cut short: it ends as the second one does, or
with a fault of a certain kind. What holds of the single steps holds of every evaluation.
Evaluations with less room are such runs: they end with the same result or with the fault of a
limit. -/
namespace Workflow.Eval

/-- A result is the other one, or a fault that `cut` describes. -/
def SameOrCut {α : Type} (cut : Fault → Prop) (r r' : EStateM.Result Fault Meter α) : Prop :=
  r = r' ∨ ∃ fault t, r = .error fault t ∧ cut fault

/-- A check that fails at least as often as another one, with a fault that `cut` describes. -/
theorem SameOrCut.check {α : Type} {cut : Fault → Prop} {p p' : Prop} [Decidable p] [Decidable p']
    {fault fault' : Fault} {t t' : Meter} {r r' : EStateM.Result Fault Meter α} (hp : p' → p)
    (hc : cut fault) (hr : SameOrCut cut r r') :
    SameOrCut cut (if p then .error fault t else r) (if p' then .error fault' t' else r') := by
  by_cases h : p
  · rw [if_pos h]
    exact Or.inr ⟨_, _, rfl, hc⟩
  · rw [if_neg h, if_neg fun h' => h (hp h')]
    exact hr

/-- A run of `m` in `s` ends as one of `m'` in `s'`, or with a fault that `cut` describes. -/
def CutShort {α : Type} (cut : Fault → Prop) (s s' : Setting) (m m' : EvalM α) : Prop :=
  ∀ t, SameOrCut cut (m s t) (m' s' t)

namespace CutShort

variable {α β : Type} {cut : Fault → Prop} {s s' : Setting}

theorem refl (m : EvalM α) : CutShort cut s s m m :=
  fun _ => Or.inl rfl

theorem pure (a : α) : CutShort cut s s' (Pure.pure a) (Pure.pure a) :=
  fun _ => Or.inl rfl

theorem bind {m m' : EvalM α} {f f' : α → EvalM β} (hm : CutShort cut s s' m m')
    (hf : ∀ a, Yields m' a → CutShort cut s s' (f a) (f' a)) :
    CutShort cut s s' (m >>= f) (m' >>= f') := by
  intro t
  simp only [run_bind]
  rcases hm t with he | ⟨fault, t', he, hc⟩
  · rw [he]
    cases hr : m' s' t with
    | ok a t' => exact hf a ⟨s', t, t', hr⟩ t'
    | error fault t' => exact Or.inl rfl
  · rw [he]
    exact Or.inr ⟨fault, t', rfl, hc⟩

theorem bracketed {m m' : EvalM α} (enter leave : Meter → Meter) (hm : CutShort cut s s' m m') :
    CutShort cut s s' (bracketed enter leave m) (bracketed enter leave m') := by
  intro t
  simp only [run_bracketed]
  rcases hm (enter t) with he | ⟨fault, t', he, hc⟩
  · rw [he]
    exact Or.inl rfl
  · rw [he]
    exact Or.inr ⟨fault, leave t', rfl, hc⟩

/-- Levels can be compared if they have the same limit, or if its faults are cuts. -/
theorem deeper {m m' : EvalM α} (cause : Nat → Excess) (ht : CutShort cut s s' tick tick)
    (hn : s.limits.nesting = s'.limits.nesting ∨
      s.limits.nesting ≤ s'.limits.nesting ∧ ∀ limit, cut (.exceeded (cause limit)))
    (hm : CutShort cut s s' m m') : CutShort cut s s' (deeper cause m) (deeper cause m') := by
  refine ht.bind fun _ _ => bracketed _ _ fun t => ?_
  simp only [run_bind, run_get_limits, run_get, run_ite, run_exceed]
  rcases hn with hn | ⟨hn, hc⟩
  · rw [hn]
    by_cases h : s'.limits.nesting < t.depth
    · rw [if_pos h, if_pos h]
      exact Or.inl rfl
    · rw [if_neg h, if_neg h]
      exact hm t
  · exact .check (by omega) (hc _) (hm t)

theorem calling {m m' : EvalM α}
    (hd : s.limits.maxDepth = s'.limits.maxDepth ∨
      s.limits.maxDepth ≤ s'.limits.maxDepth ∧ ∀ limit, cut (.exceeded (.calls limit)))
    (hm : CutShort cut s s' m m') : CutShort cut s s' (calling m) (calling m') := by
  intro t
  simp only [Eval.calling, run_bind, run_get_limits, run_get, run_ite, run_exceed]
  rcases hd with hd | ⟨hd, hc⟩
  · rw [hd]
    by_cases h : s'.limits.maxDepth ≤ t.calls
    · rw [if_pos h, if_pos h]
      exact Or.inl rfl
    · rw [if_neg h, if_neg h]
      exact bracketed _ _ hm t
  · exact .check (by omega) (hc _) (bracketed _ _ hm t)

end CutShort

/-- What it takes to compare whole evaluations in two settings: that the steps that call nothing can
be compared, and so can the limits to nesting and to calls. -/
structure Comparable (cut : Fault → Prop) (s s' : Setting) : Prop where
  free : ∀ {α : Type} {m : EvalM α}, CallFree m → CutShort cut s s' m m
  nesting : s.limits.nesting = s'.limits.nesting ∨ s.limits.nesting ≤ s'.limits.nesting ∧
    ∀ cause, cause ≠ .fuel → cut (.exceeded cause)
  calls : s.limits.maxDepth = s'.limits.maxDepth ∨ s.limits.maxDepth ≤ s'.limits.maxDepth ∧
    ∀ cause, cause ≠ .fuel → cut (.exceeded cause)

theorem comparable_refl (cut : Fault → Prop) (s : Setting) : Comparable cut s s :=
  ⟨fun _ => .refl _, Or.inl rfl, Or.inl rfl⟩

/-- Evaluations can be compared if their calls can. -/
theorem CallsOnly.cut_short {allowed : Value → List Value → Prop} {cut : Fault → Prop}
    {s s' : Setting} (hs : Comparable cut s s') {call call' : Caller}
    (hcall : ∀ f args, allowed f args → CutShort cut s s' (call f args) (call' f args))
    {α : Type} {m : Caller → EvalM α} (hm : CallsOnly allowed m) :
    CutShort cut s s' (m call) (m call') := by
  induction hm with
  | free hm => exact hs.free hm
  | andThen _ _ ihm ihf => exact ihm.bind fun a ha => ihf a ⟨call', ha⟩
  | call ha => exact hcall _ _ ha
  | deeper hc _ ih =>
    exact .deeper _ (hs.free .tick) (hs.nesting.imp_right fun h => ⟨h.1, fun _ => h.2 _ (hc _)⟩) ih
  | calling _ ih => exact .calling (hs.calls.imp_right fun h => ⟨h.1, fun _ => h.2 _ nofun⟩) ih

/-- The faults that tell of a limit or of the time; to run out of fuel is neither. -/
def Fault.IsLimit : Fault → Prop
  | .exceeded cause => cause ≠ .fuel
  | .timeout _ => True
  | _ => False

/-- The first setting leaves no more room than the second one; its clock is no later. -/
structure Narrower (s s' : Setting) : Prop where
  now : s.now = s'.now
  roots : s.roots = s'.roots
  zones : s.zones = s'.zones
  collection : s.limits.maxCollectionLength ≤ s'.limits.maxCollectionLength
  string : s.limits.maxStringLength ≤ s'.limits.maxStringLength
  total : s.limits.maxTotalElements ≤ s'.limits.maxTotalElements
  calls : s.limits.maxDepth ≤ s'.limits.maxDepth
  nesting : s.limits.nesting ≤ s'.limits.nesting
  clock : ∀ ticks, s'.limits.timeoutMs ≤ s'.elapsed ticks → s.limits.timeoutMs ≤ s.elapsed ticks

namespace Narrower

variable {s s' : Setting} (h : Narrower s s')
include h

theorem tick : CutShort Fault.IsLimit s s' tick tick := by
  intro t
  simp only [run_tick]
  exact .check (fun ⟨hi, he⟩ => ⟨hi, h.clock _ he⟩) trivial (Or.inl rfl)

theorem check_length (length : Nat) :
    CutShort Fault.IsLimit s s' (checkLength length) (checkLength length) := by
  refine h.tick.bind fun _ _ t => ?_
  simp only [run_bind, run_get_limits, run_ite, run_exceed, run_pure]
  exact .check (Nat.lt_of_le_of_lt h.collection) nofun (Or.inl rfl)

theorem check_bytes (bytes : Nat) :
    CutShort Fault.IsLimit s s' (checkBytes bytes) (checkBytes bytes) := by
  intro t
  simp only [run_check_bytes]
  exact .check (Nat.lt_of_le_of_lt h.string) nofun (Or.inl rfl)

theorem charge (units : Nat) : CutShort Fault.IsLimit s s' (charge units) (charge units) := by
  intro t
  simp only [run_charge]
  exact .check (Nat.lt_of_le_of_lt h.total) nofun (Or.inl rfl)

theorem call_free {α : Type} {m : EvalM α} (hm : CallFree m) :
    CutShort Fault.IsLimit s s' m m := by
  induction hm with
  | pure a => exact .pure a
  | bind _ _ ihm ihf => exact ihm.bind fun a _ => ihf a
  | fail _ => exact fun t => Or.inl rfl
  | tick => exact h.tick
  | checkLength length => exact h.check_length length
  | checkBytes bytes => exact h.check_bytes bytes
  | charge units => exact h.charge units
  | freshMark => exact fun t => Or.inl rfl
  | look hf _ ih =>
    intro t
    simp only [run_bind, run_read]
    rw [hf s s' h.now h.roots h.zones]
    exact ih s' t

theorem comparable : Comparable Fault.IsLimit s s' where
  free := h.call_free
  nesting := Or.inr ⟨h.nesting, fun _ hc => hc⟩
  calls := Or.inr ⟨h.calls, fun _ hc => hc⟩

/-- With the same fuel, calls can only be cut short by a limit. -/
theorem call_value (fuel : Nat) (callee : Value) (args : List Value) :
    CutShort Fault.IsLimit s s' (callValue fuel callee args) (callValue fuel callee args) := by
  induction fuel generalizing callee args with
  | zero => exact fun t => Or.inl rfl
  | succ fuel ih =>
    exact (calls_only_once callee args).cut_short h.comparable fun callee args _ => ih callee args

theorem run_with (fuel : Nat) (e : Expr) :
    CutShort Fault.IsLimit s s' (runWith fuel e) (runWith fuel e) :=
  (calls_only_eval [] e).cut_short h.comparable fun callee args _ => h.call_value fuel callee args

end Narrower

end Workflow.Eval
