import Workflow.Proofs.Eval.Callbacks
import Workflow.Proofs.Eval.Meter

/-! Evaluations with more and more fuel. They settle if from some amount of fuel on they all end the
same way, and not for want of fuel. -/
namespace Workflow.Eval

/-- An end that is not for want of fuel; a result comes at the given depth. -/
def Ends {α : Type} (depth : Nat) : EStateM.Result Fault Meter α → Prop
  | .ok _ t => t.depth = depth
  | .error fault _ => fault ≠ .exceeded .fuel

/-- Some amount of fuel is enough for `m` in a setting, and more makes no difference. -/
def Settles {α : Type} (m : Nat → EvalM α) (s : Setting) (t : Meter) : Prop :=
  ∃ n r, Ends t.depth r ∧ ∀ fuel ≥ n, m fuel s t = r

theorem ends_check {α : Type} {p : Prop} [Decidable p] {depth : Nat} {fault : Fault} {t : Meter}
    {r : EStateM.Result Fault Meter α} (hf : fault ≠ .exceeded .fuel) (hr : Ends depth r) :
    Ends depth (if p then .error fault t else r) := by
  by_cases h : p
  · rw [if_pos h]
    exact hf
  · rw [if_neg h]
    exact hr

theorem ends_tick (s : Setting) (t : Meter) : Ends t.depth (tick s t) := by
  rw [run_tick]
  exact ends_check nofun rfl

theorem ends_bind {α β : Type} {m : EvalM α} {f : α → EvalM β} {s : Setting} {t : Meter}
    (hm : Ends t.depth (m s t)) (hf : ∀ a t', t'.depth = t.depth → Ends t'.depth (f a s t')) :
    Ends t.depth ((m >>= f) s t) := by
  rw [run_bind]
  cases hr : m s t with
  | ok a t' =>
    rw [hr] at hm
    have h := hf a t' hm
    rwa [show t'.depth = t.depth from hm] at h
  | error fault t' =>
    rw [hr] at hm
    exact hm

/-- Steps that call nothing need no fuel. -/
theorem CallFree.ends {α : Type} {m : EvalM α} (hm : CallFree m) (s : Setting) (t : Meter) :
    Ends t.depth (m s t) := by
  induction hm generalizing t with
  | pure a => rfl
  | bind _ _ ihm ihf => exact ends_bind (ihm t) fun a t' _ => ihf a t'
  | fail hf => exact hf
  | tick => exact ends_tick s t
  | checkLength length =>
    refine ends_bind (ends_tick s t) fun _ t' _ => ?_
    simp only [run_bind, run_get_limits, run_ite, run_exceed, run_pure]
    exact ends_check nofun rfl
  | checkBytes bytes =>
    rw [run_check_bytes]
    exact ends_check nofun rfl
  | charge units =>
    rw [run_charge]
    exact ends_check nofun rfl
  | freshMark => rfl
  | look _ _ ih => exact ih s t

namespace Settles

variable {α β : Type} {s : Setting} {t : Meter}

theorem of_ends {m : EvalM α} (hm : Ends t.depth (m s t)) : Settles (fun _ => m) s t :=
  ⟨0, m s t, hm, fun _ _ => rfl⟩

theorem of_call_free {m : EvalM α} (hm : CallFree m) : Settles (fun _ => m) s t :=
  of_ends (hm.ends s t)

/-- A step of fuel less is as good. -/
theorem of_succ {m : Nat → EvalM α} (hm : Settles (fun fuel => m (fuel + 1)) s t) :
    Settles m s t := by
  obtain ⟨n, r, hr, hn⟩ := hm
  refine ⟨n + 1, r, hr, fun fuel hfuel => ?_⟩
  obtain ⟨k, rfl⟩ : ∃ k, fuel = k + 1 := ⟨fuel - 1, by omega⟩
  exact hn k (by omega)

theorem bind {m : Nat → EvalM α} {f : Nat → α → EvalM β} (hm : Settles m s t)
    (hf : ∀ fuel a t', m fuel s t = .ok a t' → t'.depth = t.depth →
      Settles (fun fuel => f fuel a) s t') :
    Settles (fun fuel => m fuel >>= f fuel) s t := by
  obtain ⟨n, r, hr, hn⟩ := hm
  cases r with
  | error fault t' =>
    refine ⟨n, .error fault t', hr, fun fuel hfuel => ?_⟩
    show (m fuel >>= f fuel) s t = _
    rw [run_bind, hn fuel hfuel]
  | ok a t' =>
    -- what comes second may need more fuel than what comes first
    obtain ⟨n', r', hr', hn'⟩ := hf n a t' (hn n (Nat.le_refl n)) hr
    refine ⟨max n n', r', ?_, fun fuel hfuel => ?_⟩
    · rwa [hr] at hr'
    · show (m fuel >>= f fuel) s t = r'
      rw [run_bind, hn fuel (by omega)]
      exact hn' fuel (by omega)

theorem bracketed {m : Nat → EvalM α} {enter leave : Meter → Meter}
    (hm : Settles m s (enter t)) (hl : ∀ t' : Meter, t'.depth = (enter t).depth →
      (leave t').depth = t.depth) :
    Settles (fun fuel => bracketed enter leave (m fuel)) s t := by
  obtain ⟨n, r, hr, hn⟩ := hm
  cases r with
  | error fault t' =>
    refine ⟨n, .error fault (leave t'), hr, fun fuel hfuel => ?_⟩
    show Eval.bracketed enter leave (m fuel) s t = _
    rw [run_bracketed, hn fuel hfuel]
  | ok a t' =>
    refine ⟨n, .ok a (leave t'), hl t' hr, fun fuel hfuel => ?_⟩
    show Eval.bracketed enter leave (m fuel) s t = _
    rw [run_bracketed, hn fuel hfuel]

/-- A body that is too deep is not run. -/
theorem deeper {m : Nat → EvalM α} {cause : Nat → Excess} (hc : ∀ limit, cause limit ≠ .fuel)
    (hm : ∀ t' : Meter, t'.depth = t.depth + 1 → t'.depth ≤ s.limits.nesting → Settles m s t') :
    Settles (fun fuel => deeper cause (m fuel)) s t := by
  refine bind (of_ends (ends_tick s t)) fun _ _ t' _ ht => bracketed ?_ ?_
  · by_cases h : s.limits.nesting < t'.depth + 1
    · refine ⟨0, .error (.exceeded (cause s.limits.nesting)) { t' with depth := t'.depth + 1 }, ?_, ?_⟩
      · exact fun he => hc _ (Fault.exceeded.inj he)
      · intro fuel _
        simp only [run_bind, run_get_limits, run_get, run_ite, run_exceed, h, if_true]
    · obtain ⟨n, r, hr, hn⟩ := hm { t' with depth := t'.depth + 1 } (by simp only [ht])
        (by simp only; omega)
      refine ⟨n, r, hr, fun fuel hfuel => ?_⟩
      simp only [run_bind, run_get_limits, run_get, run_ite, h, if_false]
      exact hn fuel hfuel
  · intro t'' h
    simp only at h ⊢
    omega

theorem calling {m : Nat → EvalM α}
    (hm : ∀ t' : Meter, t'.depth = t.depth → Settles m s t') :
    Settles (fun fuel => calling (m fuel)) s t := by
  by_cases h : s.limits.maxDepth ≤ t.calls
  · refine ⟨0, .error (.exceeded (.calls s.limits.maxDepth)) t, nofun, fun fuel _ => ?_⟩
    show Eval.calling (m fuel) s t = _
    rw [run_calling, if_pos h]
  · have hb : Settles (fun fuel => Eval.bracketed (fun t => { t with calls := t.calls + 1 })
        (fun t => { t with calls := t.calls - 1 }) (m fuel)) s t :=
      bracketed (hm { t with calls := t.calls + 1 } rfl) fun t' ht => ht
    obtain ⟨n, r, hr, hn⟩ := hb
    refine ⟨n, r, hr, fun fuel hfuel => ?_⟩
    rw [← hn fuel hfuel]
    show Eval.calling (m fuel) s t = Eval.bracketed _ _ (m fuel) s t
    rw [run_calling, if_neg h, run_bracketed]

end Settles

/-- An evaluation settles if its calls do, at its own depth and below. -/
theorem CallsOnly.settles {allowed : Value → List Value → Prop} {callers : Nat → Caller}
    {s : Setting} {depth : Nat}
    (hcall : ∀ f args, allowed f args → ∀ t : Meter, depth ≤ t.depth →
      Settles (fun fuel => callers fuel f args) s t)
    {α : Type} {m : Caller → EvalM α} (hm : CallsOnly allowed m) :
    ∀ t : Meter, depth ≤ t.depth → Settles (fun fuel => m (callers fuel)) s t := by
  induction hm with
  | free hm => exact fun t _ => .of_call_free hm
  | andThen _ _ ihm ihf =>
    intro t ht
    refine (ihm t ht).bind fun fuel a t' ha hd => ?_
    exact ihf a ⟨callers fuel, s, t, t', ha⟩ t' (by omega)
  | call ha => exact hcall _ _ ha
  | deeper hc _ ih => exact fun t ht => .deeper hc fun t' hd _ => ih t' (by omega)
  | calling _ ih => exact fun t ht => .calling fun t' hd => ih t' (by omega)

end Workflow.Eval
