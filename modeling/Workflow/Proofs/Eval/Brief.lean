import Mathlib.Data.List.Forall2
import Workflow.Eval.Run
import Workflow.Proofs.Eval.Meter

/-! Evaluations that end before the clock is looked at. What they take adds up. -/
namespace Workflow.Eval

/-- With so many ticks left until the clock is looked at, so many levels of nesting and room for so
many items and bytes, the evaluation ends with a result of the kind, and uses up no more. -/
def Brief {α : Type} (s : Setting) (ticks levels units : Nat) (m : EvalM α) (P : α → Prop) : Prop :=
  ∀ t : Meter, t.ticks + ticks < clockInterval → t.depth + levels ≤ s.limits.nesting →
    t.allocated + units ≤ s.limits.maxTotalElements →
      ∃ a t', m s t = .ok a t' ∧ P a ∧ t'.ticks ≤ t.ticks + ticks ∧ t'.depth = t.depth ∧
        t'.allocated ≤ t.allocated + units

namespace Brief

variable {α β : Type} {s : Setting} {ticks levels units : Nat} {m : EvalM α} {P : α → Prop}

theorem pure {a : α} (h : P a) : Brief s 0 levels 0 (Pure.pure a) P :=
  fun t _ _ _ => ⟨a, t, rfl, h, Nat.le_refl _, rfl, Nat.le_refl _⟩

theorem mono {ticks' levels' units' : Nat} (h : Brief s ticks levels units m P)
    (ht : ticks ≤ ticks') (hl : levels ≤ levels') (hu : units ≤ units') :
    Brief s ticks' levels' units' m P := by
  intro t hticks hlevels hunits
  obtain ⟨a, t', he, hp, ht', hd, ha⟩ := h t (by omega) (by omega) (by omega)
  exact ⟨a, t', he, hp, by omega, hd, by omega⟩

theorem bind {ticks' units' : Nat} {f : α → EvalM β} {Q : β → Prop}
    (hm : Brief s ticks levels units m P) (hf : ∀ a, P a → Brief s ticks' levels units' (f a) Q) :
    Brief s (ticks + ticks') levels (units + units') (m >>= f) Q := by
  intro t hticks hlevels hunits
  obtain ⟨a, t', he, hp, ht', hd, ha⟩ := hm t (by omega) hlevels (by omega)
  obtain ⟨b, t'', he', hq, ht'', hd', ha'⟩ :=
    hf a hp t' (by omega) (by omega) (by omega)
  refine ⟨b, t'', ?_, hq, by omega, by omega, by omega⟩
  rw [run_bind, he]
  exact he'

theorem bind_pure {f : α → β} {Q : β → Prop} (hm : Brief s ticks levels units m P)
    (hf : ∀ a, P a → Q (f a)) : Brief s ticks levels units (m >>= fun a => Pure.pure (f a)) Q :=
  hm.bind fun a ha => pure (hf a ha)

theorem imp {Q : α → Prop} (h : Brief s ticks levels units m P) (hpq : ∀ a, P a → Q a) :
    Brief s ticks levels units m Q := by
  intro t hticks hlevels hunits
  obtain ⟨a, t', he, hp, hused⟩ := h t hticks hlevels hunits
  exact ⟨a, t', he, hpq a hp, hused⟩

theorem tick : Brief s 1 levels 0 tick fun _ => True := by
  intro t hticks _ _
  refine ⟨(), { t with ticks := t.ticks + 1 }, ?_, trivial, Nat.le_refl _, rfl, Nat.le_refl _⟩
  have hmod : (t.ticks + 1) % clockInterval = t.ticks + 1 := Nat.mod_eq_of_lt hticks
  rw [run_tick, if_neg (by omega)]

theorem deeper {cause : Nat → Excess} (hm : Brief s ticks levels units m P) :
    Brief s (ticks + 1) (levels + 1) units (deeper cause m) P := by
  intro t hticks hlevels hunits
  -- the tick comes first, and the depth it leaves is that of the start
  obtain ⟨_, t₁, he, -, ht₁, hd₁, ha₁⟩ := tick (s := s) t (by omega) hlevels (by omega)
  obtain ⟨a, t₂, he', hp, ht₂, hd₂, ha₂⟩ :=
    hm { t₁ with depth := t₁.depth + 1 } (by dsimp only; omega) (by dsimp only; omega)
      (by dsimp only; omega)
  dsimp only at ht₂ hd₂ ha₂
  refine ⟨a, { t₂ with depth := t₂.depth - 1 }, ?_, hp, by dsimp only; omega,
    by dsimp only; omega, by dsimp only; omega⟩
  rw [run_deeper, he]
  dsimp only
  rw [if_neg (by omega), he']

theorem freshMark : Brief s 0 levels 0 freshMark fun _ => True :=
  fun t _ _ _ => ⟨_, { t with made := t.made + 1 }, rfl, trivial, Nat.le_refl _, rfl, Nat.le_refl _⟩

theorem new_string {text : String} (h : text.utf8ByteSize ≤ s.limits.maxStringLength) :
    Brief s 0 levels text.utf8ByteSize (newString text) (· = .string text) := by
  have hcheck : Brief s 0 levels 0 (checkBytes text.utf8ByteSize) fun _ => True :=
    fun t _ _ _ => ⟨(), t, by rw [run_check_bytes, if_neg (Nat.not_lt.2 h)], trivial,
      Nat.le_refl _, rfl, Nat.le_refl _⟩
  have hcharge : Brief s 0 levels text.utf8ByteSize (charge text.utf8ByteSize) fun _ => True := by
    intro t _ _ hunits
    have hmin : min (t.allocated + text.utf8ByteSize) Number.maxSize ≤
        t.allocated + text.utf8ByteSize :=
      Nat.min_le_left ..
    refine ⟨(), { t with allocated := min (t.allocated + text.utf8ByteSize) Number.maxSize }, ?_,
      trivial, Nat.le_refl _, rfl, hmin⟩
    rw [run_charge, if_neg (Nat.not_lt.2 (Nat.le_trans hmin hunits))]
  have hreserve := (hcheck.bind fun _ _ => hcharge).mono (Nat.le_refl _) (Nat.le_refl _)
    (Nat.le_of_eq (Nat.zero_add _))
  exact hreserve.bind_pure fun _ _ => rfl

theorem some_of {m : EvalM Value} {P : Value → Prop} (h : Brief s ticks levels units m P) :
    Brief s ticks levels units (some <$> m) fun link => ∃ w, link = some w ∧ P w :=
  h.bind_pure fun w hw => ⟨w, rfl, hw⟩

section

variable {m : EvalM Link} {P : Value → Prop}
  (h : Brief s ticks levels units m fun link => ∃ v, link = some v ∧ P v)
include h

theorem as_value : Brief s (ticks + 1) (levels + 1) units (asValue m) P := by
  refine deeper (h.bind_pure ?_)
  rintro _ ⟨v, rfl, hv⟩
  exact hv

theorem as_link (isChain : Bool) : Brief s (ticks + 1) (levels + 1) units (asLink isChain m)
    fun link => ∃ v, link = some v ∧ P v := by
  cases isChain with
  | true =>
    show Brief s _ _ _ (Eval.deeper (fun _ => .chain) m) _
    exact deeper h
  | false => exact (as_value h).some_of

end

end Brief

section

variable {s : Setting} {call : Caller} {env : Env}

/-- The expression has the value without any evaluation inside. -/
def Immediate (s : Setting) (call : Caller) (env : Env) (e : Expr) (v : Value) : Prop :=
  Brief s 0 0 0 (step call env e) fun link => ∃ w, link = some w ∧ w = v

theorem immediate_literal (l : Literal) : Immediate s call env (.literal l) (.ofLiteral l) :=
  .pure ⟨_, rfl, rfl⟩

theorem immediate_name {name : String} {v : Value} (h : lookup? s env name = some v) :
    Immediate s call env (.name name) v := by
  have hr : Brief s 0 0 0 (readName env name) (· = v) := by
    intro t _ _ _
    refine ⟨v, t, ?_, rfl, Nat.le_refl _, rfl, Nat.le_refl _⟩
    unfold readName
    rw [run_bind, run_read]
    dsimp only
    rw [h]
    rfl
  exact hr.some_of

theorem brief_items {es : List Expr} {vs : List Value}
    (h : List.Forall₂ (Immediate s call env) es vs) (done : List Value) :
    Brief s es.length 1 0 (stepItems call env done es) (· = done.reverse ++ vs) := by
  induction h generalizing done with
  | nil => exact .pure (List.append_nil _).symm
  | @cons e v es vs he _ ih =>
    have hv : Brief s 1 1 0 (asValue (step call env e)) (· = v) := he.as_value
    rw [List.length_cons, Nat.add_comm]
    show Brief s (1 + es.length) 1 (0 + 0) _ _
    refine hv.bind fun w hw => ?_
    subst hw
    have hrest := ih (w :: done)
    rwa [List.reverse_cons, List.append_assoc] at hrest

/-- A member of a global object. -/
theorem brief_member {name key : String} {v w : Value} (h : lookup? s env name = some v)
    (hm : readMember v key = pure w) :
    Brief s 1 1 0 (step call env (.member (.name name) key false))
      fun link => ∃ u, link = some u ∧ u = w := by
  have hname : Brief s 1 1 0 (asLink false (step call env (.name name))) _ :=
    (immediate_name h).as_link false
  show Brief s (1 + 0) 1 (0 + 0) _ _
  refine hname.bind ?_
  rintro _ ⟨_, rfl, rfl⟩
  show Brief s 0 1 0 (some <$> readMember _ key) _
  rw [hm]
  exact (Brief.pure (P := (· = w)) rfl).some_of

/-- A call of a function under a name of its own object, with the values of its arguments. -/
theorem brief_call {name key : String} {v : Value} {f : Native} {fuel : Nat} {args : List Expr}
    {ticks ticks' levels units units' : Nat} {P : List Value → Prop} {Q : Value → Prop}
    (h : lookup? s env name = some v) (hm : readMember v key = pure (.func (.native f)))
    (hargs : Brief s ticks (levels + 2) units (stepItems (callValue (fuel + 1)) env [] args) P)
    (hcall : ∀ ws, P ws → Brief s ticks' (levels + 2) units' (f.apply (callValue fuel) ws) Q) :
    Brief s (ticks + ticks' + 3) (levels + 2) (units + units')
      (step (callValue (fuel + 1)) env (.call (.member (.name name) key false) args false))
      fun link => ∃ w, link = some w ∧ Q w := by
  have hmember : Brief s 1 1 0
      (step (callValue (fuel + 1)) env (.member (.name name) key false)) _ :=
    brief_member h hm
  have hcallee := (hmember.as_link true).mono (Nat.le_refl _)
    (show 1 + 1 ≤ levels + 2 by omega) (Nat.le_refl _)
  -- the callee, then the arguments, then the call, which begins with a tick
  have hticks : ticks + ticks' + 3 = 1 + 1 + (ticks + (1 + ticks')) := by omega
  have hunits : units + units' = 0 + (units + (0 + units')) := by omega
  rw [hticks, hunits]
  refine hcallee.bind ?_
  rintro _ ⟨_, rfl, rfl⟩
  show Brief s _ _ _ (do some <$> callValue (fuel + 1) _ (← stepItems _ env [] args)) _
  refine hargs.bind fun ws hws => ?_
  exact (Brief.tick.bind fun _ _ => hcall ws hws).some_of

end

end Workflow.Eval
