import Workflow.Proofs.Eval.Callbacks
import Workflow.Proofs.Eval.Meter

/-! The counters of evaluations are balanced. On the way of an evaluation through its meters each
step changes one counter; every level that is opened is closed again, after a fault as well, and at
no point are more levels or calls open than the limits allow. -/
namespace Workflow.Eval

abbrev Outcome (α : Type) :=
  EStateM.Result Fault Meter α

def Outcome.meter {α : Type} : Outcome α → Meter
  | .ok _ t => t
  | .error _ t => t

def Outcome.mapMeter {α : Type} (g : Meter → Meter) : Outcome α → Outcome α
  | .ok a t => .ok a (g t)
  | .error fault t => .error fault (g t)

namespace Meter

def sink (t : Meter) : Meter :=
  { t with depth := t.depth + 1 }

def rise (t : Meter) : Meter :=
  { t with depth := t.depth - 1 }

def enter (t : Meter) : Meter :=
  { t with calls := t.calls + 1 }

def leave (t : Meter) : Meter :=
  { t with calls := t.calls - 1 }

end Meter

/-- A step that changes one counter at most. -/
inductive IsStep : {α : Type} → EvalM α → Prop
  | pure {α : Type} (a : α) : IsStep (Pure.pure a)
  | fail {α : Type} (fault : Fault) : IsStep (Eval.fail fault : EvalM α)
  | read : IsStep (MonadReader.read : EvalM Setting)
  | tick : IsStep Eval.tick
  | charge (units : Nat) : IsStep (Eval.charge units)
  | freshMark : IsStep Eval.freshMark

/-- The evaluation starts with the meter `t`, and step by step it has the meters in `path` on its
way to its outcome. -/
inductive Passes (s : Setting) :
    {α : Type} → (m : EvalM α) → (t : Meter) → (path : List Meter) → Outcome α → Prop
  | step {α : Type} {m : EvalM α} (hm : IsStep m) (t : Meter) :
    Passes s m t [Outcome.meter (m s t)] (m s t)
  | bind {α β : Type} {m : EvalM α} {f : α → EvalM β} {t t' : Meter} {a : α}
    {path path' : List Meter} {r : Outcome β} :
    Passes s m t path (.ok a t') → Passes s (f a) t' path' r →
      Passes s (m >>= f) t (path ++ path') r
  | bind_fault {α β : Type} {m : EvalM α} {f : α → EvalM β} {t t' : Meter} {fault : Fault}
    {path : List Meter} :
    Passes s m t path (.error fault t') → Passes s (m >>= f) t path (.error fault t')
  | late {α : Type} {cause : Nat → Excess} {body : EvalM α} {t t' : Meter} {fault : Fault} :
    tick s t = .error fault t' → Passes s (deeper cause body) t [t'] (.error fault t')
  | too_deep {α : Type} {cause : Nat → Excess} {body : EvalM α} {t t' : Meter} :
    tick s t = .ok () t' → s.limits.nesting < t'.sink.depth →
      Passes s (deeper cause body) t [t', t'.sink, t'.sink.rise]
        (.error (.exceeded (cause s.limits.nesting)) t'.sink.rise)
  | deeper {α : Type} {cause : Nat → Excess} {body : EvalM α} {t t' : Meter} {path : List Meter}
    {r : Outcome α} :
    tick s t = .ok () t' → t'.sink.depth ≤ s.limits.nesting → Passes s body t'.sink path r →
      Passes s (deeper cause body) t (t' :: t'.sink :: (path ++ [r.meter.rise]))
        (r.mapMeter Meter.rise)
  | too_many {α : Type} {body : EvalM α} {t : Meter} :
    s.limits.maxDepth ≤ t.calls →
      Passes s (calling body) t [] (.error (.exceeded (.calls s.limits.maxDepth)) t)
  | calling {α : Type} {body : EvalM α} {t : Meter} {path : List Meter} {r : Outcome α} :
    t.calls < s.limits.maxDepth → Passes s body t.enter path r →
      Passes s (calling body) t (t.enter :: (path ++ [r.meter.leave])) (r.mapMeter Meter.leave)

section

variable {α β : Type} {s : Setting} {t t' : Meter}

theorem run_deeper_in {cause : Nat → Excess} {body : EvalM α} (ht : tick s t = .ok () t')
    (hd : t'.sink.depth ≤ s.limits.nesting) :
    deeper cause body s t = Outcome.mapMeter Meter.rise (body s t'.sink) := by
  have hlimit : ¬ s.limits.nesting < t'.depth + 1 := Nat.not_lt.2 hd
  rw [run_deeper, ht]
  dsimp only
  rw [if_neg hlimit]
  have hsink : ({ t' with depth := t'.depth + 1 } : Meter) = t'.sink := rfl
  rw [hsink]
  cases body s t'.sink with
  | ok a t => rfl
  | error fault t => rfl

theorem run_deeper_over {cause : Nat → Excess} {body : EvalM α} (ht : tick s t = .ok () t')
    (hd : s.limits.nesting < t'.sink.depth) :
    deeper cause body s t = .error (.exceeded (cause s.limits.nesting)) t'.sink.rise := by
  rw [run_deeper, ht]
  exact if_pos hd

theorem run_calling_in {body : EvalM α} (hc : t.calls < s.limits.maxDepth) :
    calling body s t = Outcome.mapMeter Meter.leave (body s t.enter) := by
  have henter : ({ t with calls := t.calls + 1 } : Meter) = t.enter := rfl
  rw [run_calling, if_neg (Nat.not_le.2 hc), henter]
  cases body s t.enter with
  | ok a t => rfl
  | error fault t => rfl

/-- Every way of an evaluation leads to its outcome. -/
theorem Passes.eq_outcome {m : EvalM α} {path : List Meter} {r : Outcome α}
    (h : Passes s m t path r) : m s t = r := by
  induction h with
  | step => rfl
  | bind _ _ ihm ihf =>
    rw [run_bind, ihm]
    exact ihf
  | bind_fault _ ihm => rw [run_bind, ihm]
  | late ht => rw [run_deeper, ht]
  | too_deep ht hd => exact run_deeper_over ht hd
  | deeper ht hd _ ih => rw [run_deeper_in ht hd, ih]
  | too_many hc =>
    rw [run_calling]
    exact if_pos hc
  | calling hc _ ih => rw [run_calling_in hc, ih]

end

/-- From every meter the evaluation has a way to its outcome. -/
def HasWay {α : Type} (s : Setting) (m : EvalM α) : Prop :=
  ∀ t, ∃ path, Passes s m t path (m s t)

namespace HasWay

variable {α β : Type} {s : Setting}

theorem step {m : EvalM α} (hm : IsStep m) : HasWay s m :=
  fun t => ⟨_, .step hm t⟩

theorem bind {m : EvalM α} {f : α → EvalM β} (hm : HasWay s m)
    (hf : ∀ a t t', m s t = .ok a t' → HasWay s (f a)) : HasWay s (m >>= f) := by
  intro t
  obtain ⟨path, hpath⟩ := hm t
  rw [run_bind]
  cases hr : m s t with
  | error fault t' =>
    rw [hr] at hpath
    exact ⟨path, .bind_fault hpath⟩
  | ok a t' =>
    rw [hr] at hpath
    obtain ⟨path', hpath'⟩ := hf a t t' hr t'
    exact ⟨path ++ path', .bind hpath hpath'⟩

theorem deeper {body : EvalM α} (cause : Nat → Excess) (hb : HasWay s body) :
    HasWay s (deeper cause body) := by
  intro t
  cases ht : tick s t with
  | error fault t' =>
    rw [run_deeper, ht]
    exact ⟨[t'], .late ht⟩
  | ok _ t' =>
    by_cases hd : t'.sink.depth ≤ s.limits.nesting
    · obtain ⟨path, hpath⟩ := hb t'.sink
      rw [run_deeper_in ht hd]
      exact ⟨_, .deeper ht hd hpath⟩
    · have hover : s.limits.nesting < t'.sink.depth := Nat.not_le.1 hd
      rw [run_deeper_over ht hover]
      exact ⟨_, .too_deep ht hover⟩

theorem calling {body : EvalM α} (hb : HasWay s body) : HasWay s (calling body) := by
  intro t
  by_cases hc : t.calls < s.limits.maxDepth
  · obtain ⟨path, hpath⟩ := hb t.enter
    rw [run_calling_in hc]
    exact ⟨_, .calling hc hpath⟩
  · have hmany : s.limits.maxDepth ≤ t.calls := Nat.not_lt.1 hc
    rw [run_calling, if_pos hmany]
    exact ⟨_, .too_many hmany⟩

theorem exceed (cause : Excess) : HasWay s (exceed cause : EvalM α) :=
  step (.fail _)

theorem getLimits : HasWay s getLimits :=
  bind (step .read) fun _ _ _ _ => step (.pure _)

theorem checkLength (length : Nat) : HasWay s (checkLength length) := by
  refine bind (step .tick) fun _ _ _ _ => bind getLimits fun limits _ _ _ => ?_
  dsimp only
  split
  · exact exceed _
  · exact step (.pure _)

theorem checkBytes (bytes : Nat) : HasWay s (checkBytes bytes) := by
  refine bind getLimits fun limits _ _ _ => ?_
  dsimp only
  split
  · exact exceed _
  · exact step (.pure _)

theorem callFree {m : EvalM α} (hm : CallFree m) : HasWay s m := by
  induction hm with
  | pure a => exact step (.pure a)
  | bind _ _ ihm ihf => exact bind ihm fun a _ _ _ => ihf a
  | fail _ => exact step (.fail _)
  | tick => exact step .tick
  | checkLength length => exact checkLength length
  | checkBytes bytes => exact checkBytes bytes
  | charge units => exact step (.charge units)
  | freshMark => exact step .freshMark
  | look _ _ ih => exact bind (step .read) fun s' _ _ _ => ih s'

theorem callsOnly {allowed : Value → List Value → Prop} {m : Caller → EvalM α} {call : Caller}
    (hm : CallsOnly allowed m) (hcall : ∀ f args, HasWay s (call f args)) : HasWay s (m call) := by
  induction hm with
  | free hm => exact callFree hm
  | andThen _ _ ihm ihf => exact bind ihm fun a t t' ha => ihf a ⟨call, ⟨s, t, t', ha⟩⟩
  | call => exact hcall _ _
  | deeper _ _ ih => exact deeper _ ih
  | calling _ ih => exact calling ih

theorem callValue (fuel : Nat) (f : Value) (args : List Value) :
    HasWay s (callValue fuel f args) := by
  induction fuel generalizing f args with
  | zero => exact exceed _
  | succ fuel ih => exact callsOnly (calls_only_once f args) ih

end HasWay

namespace Meter

/-- A meter from which evaluations start: no more levels and calls are open than the limits allow,
and what is allocated is a size. -/
structure Opens (l : Limits) (t : Meter) : Prop where
  depth : t.depth ≤ 4 * l.maxDepth
  calls : t.calls ≤ l.maxDepth
  allocated : t.allocated ≤ Number.maxSize

/-- A meter that evaluations have on their way. The level that is one too many is open for a
moment. -/
structure OnTheWay (l : Limits) (t : Meter) : Prop where
  depth : t.depth ≤ 4 * l.maxDepth + 1
  calls : t.calls ≤ l.maxDepth

theorem Opens.onTheWay {l : Limits} {t : Meter} (h : t.Opens l) : t.OnTheWay l :=
  ⟨Nat.le_succ_of_le h.depth, h.calls⟩

end Meter

/-- The levels and calls that were opened are closed again, and nothing that was used is given
back. -/
structure Balanced (t t' : Meter) : Prop where
  depth : t'.depth = t.depth
  calls : t'.calls = t.calls
  ticks : t.ticks ≤ t'.ticks
  allocated : t.allocated ≤ t'.allocated

namespace Balanced

variable {t t' t'' : Meter}

theorem refl (t : Meter) : Balanced t t :=
  ⟨rfl, rfl, Nat.le_refl _, Nat.le_refl _⟩

theorem trans (h : Balanced t t') (h' : Balanced t' t'') : Balanced t t'' where
  depth := h'.depth.trans h.depth
  calls := h'.calls.trans h.calls
  ticks := Nat.le_trans h.ticks h'.ticks
  allocated := Nat.le_trans h.allocated h'.allocated

theorem opens {l : Limits} (h : Balanced t t') (ht : t.Opens l)
    (hsize : t'.allocated ≤ Number.maxSize) : t'.Opens l where
  depth := Nat.le_trans (Nat.le_of_eq h.depth) ht.depth
  calls := Nat.le_trans (Nat.le_of_eq h.calls) ht.calls
  allocated := hsize

theorem rise (h : Balanced t.sink t') : Balanced t t'.rise where
  depth := by
    show t'.depth - 1 = t.depth
    rw [h.depth]
    exact Nat.add_sub_cancel t.depth 1
  calls := h.calls
  ticks := h.ticks
  allocated := h.allocated

theorem leave (h : Balanced t.enter t') : Balanced t t'.leave where
  depth := h.depth
  calls := by
    show t'.calls - 1 = t.calls
    rw [h.calls]
    exact Nat.add_sub_cancel t.calls 1
  ticks := h.ticks
  allocated := h.allocated

end Balanced

/-- What holds of a way from `t` to an outcome. -/
structure Fair {α : Type} (l : Limits) (t : Meter) (path : List Meter) (r : Outcome α) : Prop where
  balanced : Balanced t r.meter
  size : r.meter.allocated ≤ Number.maxSize
  paid : ∀ a t', r = .ok a t' → t.allocated ≤ l.maxTotalElements →
    t'.allocated ≤ l.maxTotalElements
  way : ∀ u ∈ path, u.OnTheWay l

theorem nesting_le (l : Limits) : l.nesting ≤ 4 * l.maxDepth := by
  unfold Limits.nesting
  rw [Nat.mul_comm]
  exact Nat.mod_le _ _

section

variable {α : Type} {s : Setting} {t : Meter}

/-- A step to a meter with the same levels and calls open. -/
theorem Fair.single {r : Outcome α} {l : Limits} (ht : t.Opens l) (hb : Balanced t r.meter)
    (hsize : r.meter.allocated ≤ Number.maxSize)
    (hpaid : ∀ a t', r = .ok a t' → t.allocated ≤ l.maxTotalElements →
      t'.allocated ≤ l.maxTotalElements) : Fair l t [r.meter] r where
  balanced := hb
  size := hsize
  paid := hpaid
  way := by
    intro u hu
    obtain rfl := List.mem_singleton.1 hu
    exact (hb.opens ht hsize).onTheWay

theorem fair_tick (ht : t.Opens s.limits) :
    Fair s.limits t [Outcome.meter (tick s t)] (tick s t) := by
  have hmeter : Outcome.meter (tick s t) = { t with ticks := t.ticks + 1 } := by
    rw [run_tick]
    split
    · rfl
    · rfl
  refine .single ht ?_ ?_ ?_
  · rw [hmeter]
    exact ⟨rfl, rfl, Nat.le_succ _, Nat.le_refl _⟩
  · rw [hmeter]
    exact ht.allocated
  · intro _ t' hr hpaid
    rw [eq_of_tick hr]
    exact hpaid

theorem fair_charge (units : Nat) (ht : t.Opens s.limits) :
    Fair s.limits t [Outcome.meter (charge units s t)] (charge units s t) := by
  have hmeter : Outcome.meter (charge units s t) =
      { t with allocated := min (t.allocated + units) Number.maxSize } := by
    rw [run_charge]
    split
    · rfl
    · rfl
  refine .single ht ?_ ?_ ?_
  · rw [hmeter]
    exact ⟨rfl, rfl, Nat.le_refl _, Nat.le_min.2 ⟨Nat.le_add_right _ _, ht.allocated⟩⟩
  · rw [hmeter]
    exact Nat.min_le_right _ _
  · intro _ t' hr _
    rw [run_charge] at hr
    split at hr
    · contradiction
    · rename_i hlimit
      cases hr
      exact Nat.not_lt.1 hlimit

theorem fair_step {m : EvalM α} (hm : IsStep m) (ht : t.Opens s.limits) :
    Fair s.limits t [Outcome.meter (m s t)] (m s t) := by
  -- the other steps change neither the ticks nor what is allocated
  have hsame (r : Outcome α) (hb : Balanced t r.meter) (he : r.meter.allocated = t.allocated) :
      Fair s.limits t [r.meter] r := by
    refine .single ht hb ?_ ?_
    · rw [he]
      exact ht.allocated
    · rintro _ t' rfl hpaid
      exact Nat.le_trans (Nat.le_of_eq he) hpaid
  cases hm with
  | pure a => exact hsame _ (.refl t) rfl
  | fail fault => exact hsame _ (.refl t) rfl
  | read => exact hsame _ (.refl t) rfl
  | tick => exact fair_tick ht
  | charge units => exact fair_charge units ht
  | freshMark => exact hsame _ ⟨rfl, rfl, Nat.le_refl _, Nat.le_refl _⟩ rfl

theorem Outcome.meter_mapMeter (g : Meter → Meter) (r : Outcome α) :
    (r.mapMeter g).meter = g r.meter := by
  cases r with
  | ok a t => rfl
  | error fault t => rfl

theorem Outcome.mapMeter_eq_ok {g : Meter → Meter} {r : Outcome α} {a : α} {t' : Meter}
    (h : r.mapMeter g = .ok a t') : ∃ t, r = .ok a t ∧ t' = g t := by
  cases r with
  | ok b t =>
    cases h
    exact ⟨t, rfl, rfl⟩
  | error fault t => contradiction

/-- On every way the counters stay within their bounds, and they are balanced at its end. -/
theorem Passes.fair {m : EvalM α} {path : List Meter} {r : Outcome α} (h : Passes s m t path r)
    (ht : t.Opens s.limits) : Fair s.limits t path r := by
  induction h with
  | step hm t => exact fair_step hm ht
  | @bind _ _ m f t t' a path path' r _ _ ihm ihf =>
    have hm := ihm ht
    have hf := ihf (hm.balanced.opens ht hm.size)
    exact {
      balanced := hm.balanced.trans hf.balanced
      size := hf.size
      paid := fun b u hr hpaid => hf.paid b u hr (hm.paid a t' rfl hpaid)
      way := fun u hu => (List.mem_append.1 hu).elim (hm.way u) (hf.way u) }
  | bind_fault _ ihm =>
    have hm := ihm ht
    exact ⟨hm.balanced, hm.size, nofun, hm.way⟩
  | late htick =>
    have hf := fair_tick ht
    rw [htick] at hf
    exact ⟨hf.balanced, hf.size, nofun, hf.way⟩
  | @too_deep _ _ _ t t' htick hd =>
    have hf := fair_tick ht
    rw [htick] at hf
    have ht' := hf.balanced.opens ht hf.size
    refine ⟨hf.balanced, hf.size, nofun, fun u hu => ?_⟩
    -- the level that is one too many is open until the fault is noticed
    have hsink : t'.sink.OnTheWay s.limits := ⟨Nat.succ_le_succ ht'.depth, ht'.calls⟩
    have hu : u = t' ∨ u = t'.sink ∨ u = t'.sink.rise := by simpa using hu
    rcases hu with rfl | rfl | rfl
    · exact ht'.onTheWay
    · exact hsink
    · exact ht'.onTheWay
  | @deeper _ _ _ t t' path r htick hd _ ih =>
    have hf := fair_tick ht
    rw [htick] at hf
    have ht' := hf.balanced.opens ht hf.size
    have hsink : t'.sink.Opens s.limits :=
      ⟨Nat.le_trans hd (nesting_le s.limits), ht'.calls, ht'.allocated⟩
    have hbody := ih hsink
    have hrise : Balanced t' r.meter.rise := hbody.balanced.rise
    refine ⟨?_, ?_, ?_, fun u hu => ?_⟩
    · rw [Outcome.meter_mapMeter]
      exact hf.balanced.trans hrise
    · rw [Outcome.meter_mapMeter]
      exact hbody.size
    · intro a u hr hpaid
      obtain ⟨u', hr', rfl⟩ := Outcome.mapMeter_eq_ok hr
      exact hbody.paid a u' hr' (hf.paid () t' rfl hpaid)
    · have hu : u = t' ∨ u = t'.sink ∨ u ∈ path ∨ u = r.meter.rise := by simpa using hu
      rcases hu with rfl | rfl | hu | rfl
      · exact ht'.onTheWay
      · exact hsink.onTheWay
      · exact hbody.way u hu
      · exact (hrise.opens ht' hbody.size).onTheWay
  | too_many hc => exact ⟨.refl _, ht.allocated, nofun, nofun⟩
  | @calling _ _ t path r hc _ ih =>
    have henter : t.enter.Opens s.limits := ⟨ht.depth, hc, ht.allocated⟩
    have hbody := ih henter
    have hleave : Balanced t r.meter.leave := hbody.balanced.leave
    refine ⟨?_, ?_, ?_, fun u hu => ?_⟩
    · rw [Outcome.meter_mapMeter]
      exact hleave
    · rw [Outcome.meter_mapMeter]
      exact hbody.size
    · intro a u hr hpaid
      obtain ⟨u', hr', rfl⟩ := Outcome.mapMeter_eq_ok hr
      exact hbody.paid a u' hr' hpaid
    · have hu : u = t.enter ∨ u ∈ path ∨ u = r.meter.leave := by simpa using hu
      rcases hu with rfl | hu | rfl
      · exact henter.onTheWay
      · exact hbody.way u hu
      · exact (hleave.opens ht hbody.size).onTheWay

/-- The run of an evaluation has a way to its outcome, and all of its ways are fair. -/
structure RunsFairly (s : Setting) (t : Meter) (m : EvalM α) : Prop where
  has_way : ∃ path, Passes s m t path (m s t)
  fair : ∀ path r, Passes s m t path r → r = m s t ∧ Fair s.limits t path r

theorem HasWay.runsFairly {m : EvalM α} (h : HasWay s m) (ht : t.Opens s.limits) :
    RunsFairly s t m where
  has_way := h t
  fair _ _ hp := ⟨hp.eq_outcome.symm, hp.fair ht⟩

end

/-- The counters are balanced by every expression, link, call of a value and call of a function that
an expression defines: they are within their bounds on the whole way, and levels and calls are
closed again at its end, which can be a fault. -/
theorem counters_balanced (s : Setting) (t : Meter) (fuel : Nat) (ht : t.Opens s.limits) :
    (∀ env e, RunsFairly s t (eval (callValue fuel) env e)) ∧
    (∀ env e, RunsFairly s t (asLink (isChain e) (step (callValue fuel) env e))) ∧
    (∀ f args, RunsFairly s t (callValue fuel f args)) ∧
    ∀ params body env args,
      RunsFairly s t (callFunc (callValue fuel) (.closure params body env) args) := by
  have hcall : ∀ f args, HasWay s (callValue fuel f args) := HasWay.callValue fuel
  refine ⟨fun env e => ?_, fun env e => ?_, fun f args => ?_, fun params body env args => ?_⟩
  · exact (HasWay.callsOnly (calls_only_eval env e) hcall).runsFairly ht
  · exact (HasWay.callsOnly (.as_link _ (calls_only_step env e)) hcall).runsFairly ht
  · exact (hcall f args).runsFairly ht
  · exact (HasWay.callsOnly (calls_only_func _ args) hcall).runsFairly ht

/-- Two calls and five levels may be open under the limits of the context. -/
theorem counters_balanced_in_call :
    ({ depth := 5, calls := 2 } : Meter).Opens {} ∧
      ∀ f args, RunsFairly { limits := {}, now := ⟨0, 0⟩, roots := [], zones := .known }
        { depth := 5, calls := 2 } (callValue 1 f args) := by
  have ht : ({ depth := 5, calls := 2 } : Meter).Opens {} :=
    ⟨by decide, by decide, by decide⟩
  exact ⟨ht, (counters_balanced { limits := {}, now := ⟨0, 0⟩, roots := [], zones := .known }
    { depth := 5, calls := 2 } 1 ht).2.2.1⟩

end Workflow.Eval
