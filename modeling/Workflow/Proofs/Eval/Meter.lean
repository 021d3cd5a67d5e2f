import Mathlib.Tactic.Common
import Workflow.Eval.Meter
import Workflow.Time.NamedZones

/-! What the steps of evaluations that touch the meter do, as functions of the setting and the
meter. -/
namespace Workflow.Eval

variable {α β : Type}

@[simp]
theorem run_pure (a : α) (s : Setting) (t : Meter) : (pure a : EvalM α) s t = .ok a t :=
  rfl

@[simp]
theorem run_bind (m : EvalM α) (f : α → EvalM β) (s : Setting) (t : Meter) :
    (m >>= f) s t =
      match m s t with
      | .ok a t => f a s t
      | .error fault t => .error fault t := by
  show EStateM.bind (m s) (fun a => f a s) t = _
  unfold EStateM.bind
  cases m s t with
  | ok a t => rfl
  | error fault t => rfl

@[simp]
theorem run_read (s : Setting) (t : Meter) : (read : EvalM Setting) s t = .ok s t :=
  rfl

@[simp]
theorem run_get (s : Setting) (t : Meter) : (get : EvalM Meter) s t = .ok t t :=
  rfl

@[simp]
theorem run_modify (g : Meter → Meter) (s : Setting) (t : Meter) :
    (modify g : EvalM Unit) s t = .ok () (g t) :=
  rfl

@[simp]
theorem run_fail (f : Fault) (s : Setting) (t : Meter) : (fail f : EvalM α) s t = .error f t :=
  rfl

@[simp]
theorem run_exceed (cause : Excess) (s : Setting) (t : Meter) :
    (exceed cause : EvalM α) s t = .error (.exceeded cause) t :=
  rfl

@[simp]
theorem run_ite (p : Prop) [Decidable p] (m m' : EvalM α) (s : Setting) (t : Meter) :
    (if p then m else m') s t = if p then m s t else m' s t := by
  split
  · rfl
  · rfl

@[simp]
theorem run_get_limits (s : Setting) (t : Meter) : getLimits s t = .ok s.limits t :=
  rfl

theorem run_tick (s : Setting) (t : Meter) :
    tick s t =
      if (t.ticks + 1) % clockInterval = 0 ∧ s.limits.timeoutMs ≤ s.elapsed (t.ticks + 1) then
        .error (.timeout s.limits.timeoutMs) { t with ticks := t.ticks + 1 }
      else .ok () { t with ticks := t.ticks + 1 } := by
  simp only [tick, run_bind, run_read, run_get, run_modify, run_ite, run_fail, run_pure]

theorem run_tick_of_clock {s : Setting} (h : ∀ ticks, s.elapsed ticks < s.limits.timeoutMs)
    (t : Meter) : tick s t = .ok () { t with ticks := t.ticks + 1 } := by
  have hc : ¬((t.ticks + 1) % clockInterval = 0 ∧
      s.limits.timeoutMs ≤ s.elapsed (t.ticks + 1)) := by
    have he := h (t.ticks + 1)
    omega
  rw [run_tick, if_neg hc]

/-- A clock that never runs, and plenty of room. -/
def plainSetting : Setting :=
  { limits := {}, now := ⟨0, 0⟩, roots := [], zones := .known }

theorem elapsed_plainSetting (ticks : Nat) :
    plainSetting.elapsed ticks < plainSetting.limits.timeoutMs :=
  show 0 < 5000 by decide

theorem eq_of_tick {s : Setting} {t t' : Meter} (h : tick s t = .ok () t') :
    t' = { t with ticks := t.ticks + 1 } := by
  rw [run_tick] at h
  split at h
  · cases h
  · cases h
    rfl

theorem run_check_length (length : Nat) (s : Setting) (t : Meter) :
    checkLength length s t =
      match tick s t with
      | .error fault t => .error fault t
      | .ok _ t =>
        if s.limits.maxCollectionLength < length then
          .error (.exceeded (.collection length s.limits.maxCollectionLength)) t
        else .ok () t := by
  simp only [checkLength, run_bind, run_get_limits, run_ite, run_exceed, run_pure]
  cases tick s t with
  | ok _ t => rfl
  | error fault t => rfl

theorem run_check_bytes (bytes : Nat) (s : Setting) (t : Meter) :
    checkBytes bytes s t =
      if s.limits.maxStringLength < bytes then
        .error (.exceeded (.string bytes s.limits.maxStringLength)) t
      else .ok () t := by
  simp only [checkBytes, run_bind, run_get_limits, run_ite, run_exceed, run_pure]

theorem run_charge (units : Nat) (s : Setting) (t : Meter) :
    charge units s t =
      if s.limits.maxTotalElements < min (t.allocated + units) Number.maxSize then
        .error (.exceeded (.allocation s.limits.maxTotalElements))
          { t with allocated := min (t.allocated + units) Number.maxSize }
      else .ok () { t with allocated := min (t.allocated + units) Number.maxSize } := by
  simp only [charge, run_bind, run_get_limits, run_get, run_modify, run_ite, run_exceed, run_pure]

/-- Runs a body between two changes of the meter. -/
theorem run_bracketed (enter leave : Meter → Meter) (body : EvalM α) (s : Setting) (t : Meter) :
    bracketed enter leave body s t =
      match body s (enter t) with
      | .ok a t => .ok a (leave t)
      | .error fault t => .error fault (leave t) :=
  rfl

theorem run_deeper (cause : Nat → Excess) (body : EvalM α) (s : Setting) (t : Meter) :
    deeper cause body s t =
      match tick s t with
      | .error fault t => .error fault t
      | .ok _ t =>
        if s.limits.nesting < t.depth + 1 then .error (.exceeded (cause s.limits.nesting)) t
        else
          match body s { t with depth := t.depth + 1 } with
          | .ok a t => .ok a { t with depth := t.depth - 1 }
          | .error fault t => .error fault { t with depth := t.depth - 1 } := by
  simp only [deeper, run_bind, run_bracketed, run_get_limits, run_get, run_ite, run_exceed]
  cases tick s t with
  | error fault t => rfl
  | ok _ t =>
    by_cases h : s.limits.nesting < t.depth + 1
    · simp only [h, if_true, Nat.add_sub_cancel]
    · simp only [h, if_false]

theorem run_calling (body : EvalM α) (s : Setting) (t : Meter) :
    calling body s t =
      if s.limits.maxDepth ≤ t.calls then .error (.exceeded (.calls s.limits.maxDepth)) t
      else
        match body s { t with calls := t.calls + 1 } with
        | .ok a t => .ok a { t with calls := t.calls - 1 }
        | .error fault t => .error fault { t with calls := t.calls - 1 } := by
  simp only [calling, run_bind, run_bracketed, run_get_limits, run_get, run_ite, run_exceed]

theorem exists_of_bind {m : EvalM α} {f : α → EvalM β} {s : Setting} {t t' : Meter} {b : β}
    (h : (m >>= f) s t = .ok b t') : ∃ a t₁, m s t = .ok a t₁ ∧ f a s t₁ = .ok b t' := by
  rw [run_bind] at h
  split at h
  · rename_i a t₁ ha
    exact ⟨a, t₁, ha, h⟩
  · cases h

/-- There was a level left for the body. -/
theorem exists_of_deeper {cause : Nat → Excess} {body : EvalM α} {s : Setting} {t t' : Meter}
    {a : α} (h : deeper cause body s t = .ok a t') :
    t.depth < s.limits.nesting ∧ ∃ t₁ : Meter,
      body s { t with ticks := t.ticks + 1, depth := t.depth + 1 } = .ok a t₁ ∧
        t' = { t₁ with depth := t₁.depth - 1 } := by
  rw [run_deeper] at h
  split at h
  · cases h
  · rename_i htick
    obtain rfl := eq_of_tick htick
    split at h
    · cases h
    · rename_i hlimit
      split at h
      · rename_i a t₁ ha
        cases h
        exact ⟨Nat.not_lt.1 hlimit, t₁, ha, rfl⟩
      · cases h

theorem exists_of_calling {body : EvalM α} {s : Setting} {t t' : Meter} {a : α}
    (h : calling body s t = .ok a t') :
    t.calls < s.limits.maxDepth ∧ ∃ t₁ : Meter,
      body s { t with calls := t.calls + 1 } = .ok a t₁ ∧
        t' = { t₁ with calls := t₁.calls - 1 } := by
  rw [run_calling] at h
  split at h
  · cases h
  · rename_i hlimit
    split at h
    · rename_i a t₁ ha
      cases h
      exact ⟨Nat.not_le.1 hlimit, t₁, ha, rfl⟩
    · cases h

end Workflow.Eval
