import Workflow.Evaluate
import Workflow.Proofs.Eval.CutShort
import Workflow.Proofs.Expr.Nesting

/-! What limits can do to the value of a text: they cut its evaluation off, or make no difference. -/
namespace Workflow

open Eval

/-- A text that is let through and read is run. -/
theorem evaluate_eq_runIn {limits : Limits} {source : String} {ctx : Context} {roots : Fields Json}
    {e : Expr} (hs : Screen.issues limits.maxExpressionLength source = [])
    (hi : ctx.isolate? = some roots) (hp : Expr.parse limits.maxDepth source = .ok e)
    (now : Time.Timestamp) (elapsed : Nat → Nat) (zones : Time.ZoneDatabase) :
    evaluate limits now source ctx elapsed zones =
      runIn { limits, now, roots := rootValues roots, elapsed, zones } e := by
  unfold evaluate
  rw [hs, hi, hp]

/-- An outcome is that of an expression that was read, among roots that were read back. -/
theorem exists_of_evaluate {limits : Limits} {now : Time.Timestamp} {source : String}
    {ctx : Context} {elapsed : Nat → Nat} {zones : Time.ZoneDatabase} {outcome : Outcome}
    (h : evaluate limits now source ctx elapsed zones = .ok outcome) :
    ∃ roots e, ctx.isolate? = some roots ∧ Expr.parse limits.maxDepth source = .ok e ∧
      runIn { limits, now, roots := rootValues roots, elapsed, zones } e = .ok outcome := by
  unfold evaluate at h
  split at h
  · split at h
    · cases h
    · rename_i roots hi
      split at h
      · cases h
      · rename_i e hp
        exact ⟨roots, e, hi, hp, h⟩
  · cases h

theorem exists_of_runIn {s : Setting} {e : Expr} {outcome : Outcome}
    (h : runIn s e = .ok outcome) :
    ∃ v t, Eval.run e s {} = .ok v t ∧ Outcome.ofValue? v = some outcome := by
  unfold runIn at h
  split at h
  · rename_i v t hrun
    split at h
    · rename_i outcome' ho
      obtain rfl := Except.ok.inj h
      exact ⟨v, t, hrun, ho⟩
    · cases h
  · cases h

namespace Limits

/-- Every limit but that of time is at most as large. -/
structure Tighter (l l' : Limits) : Prop where
  expression : l.maxExpressionLength ≤ l'.maxExpressionLength
  collection : l.maxCollectionLength ≤ l'.maxCollectionLength
  string : l.maxStringLength ≤ l'.maxStringLength
  depth : l.maxDepth ≤ l'.maxDepth
  total : l.maxTotalElements ≤ l'.maxTotalElements

theorem Tighter.nesting {l l' : Limits} (h : l.Tighter l')
    (hfits : l'.maxDepth * 4 < Json.sizeBound) : l.nesting ≤ l'.nesting := by
  have hd := h.depth
  unfold Limits.nesting
  rw [Nat.mod_eq_of_lt hfits, Nat.mod_eq_of_lt (by omega)]
  omega

theorem Tighter.narrower {l l' : Limits} (h : l.Tighter l')
    (hfits : l'.maxDepth * 4 < Json.sizeBound) {elapsed elapsed' : Nat → Nat}
    (hclock : ∀ ticks, l'.timeoutMs ≤ elapsed' ticks → l.timeoutMs ≤ elapsed ticks)
    (now : Time.Timestamp) (roots : List (String × Value)) (zones : Time.ZoneDatabase) :
    Narrower { limits := l, now, roots, elapsed, zones }
      { limits := l', now, roots, elapsed := elapsed', zones } where
  now := rfl
  roots := rfl
  zones := rfl
  collection := h.collection
  string := h.string
  total := h.total
  calls := h.depth
  nesting := h.nesting hfits
  clock := hclock

end Limits

/-- The failures that tell of a limit: the text is too long, the nesting too deep, a collection or a
text too large, or the time over. -/
def Failure.IsLimit : Failure → Prop
  | .rejected issues => ∃ length limit, issues = [Screen.tooLong length limit]
  | .fault cause => cause.IsLimit
  | _ => False

theorem run_in_cut_short {s s' : Setting} (h : Narrower s s') (e : Expr) :
    runIn s e = runIn s' e ∨ ∃ cause, runIn s e = .error (.fault cause) ∧ cause.IsLimit := by
  have hrun : SameOrCut Fault.IsLimit (Eval.run e s {}) (Eval.run e s' {}) := h.run_with callFuel e {}
  unfold runIn
  simp only [ReaderT.run, EStateM.run]
  rcases hrun with he | ⟨cause, t, he, hc⟩
  · rw [he]
    exact Or.inl rfl
  · rw [he]
    exact Or.inr ⟨cause, rfl, hc⟩

/-- A text that is short enough is searched, whatever the limit. -/
theorem issues_of_length_le {limit limit' : Nat} {source : String}
    (h : source.toList.length ≤ limit) (h' : source.toList.length ≤ limit') :
    Screen.issues limit source = Screen.issues limit' source := by
  unfold Screen.issues
  dsimp only
  rw [if_neg (by omega), if_neg (by omega)]

/-- Under tighter limits, and a clock that is over whenever the other one is, a text has the same
outcome or failure, or the failure of a limit. -/
theorem evaluate_cut_short {l l' : Limits} (h : l.Tighter l')
    (hfits : l'.maxDepth * 4 < Json.sizeBound) {elapsed elapsed' : Nat → Nat}
    (hclock : ∀ ticks, l'.timeoutMs ≤ elapsed' ticks → l.timeoutMs ≤ elapsed ticks)
    (now : Time.Timestamp) (source : String) (ctx : Context) (zones : Time.ZoneDatabase) :
    evaluate l now source ctx elapsed zones = evaluate l' now source ctx elapsed' zones ∨
      ∃ failure, evaluate l now source ctx elapsed zones = .error failure ∧ failure.IsLimit := by
  by_cases hlong : l.maxExpressionLength < source.toList.length
  · refine Or.inr ⟨.rejected [Screen.tooLong source.toList.length l.maxExpressionLength], ?_, _, _, rfl⟩
    unfold evaluate Screen.issues
    dsimp only
    rw [if_pos hlong]
  · have hl := h.expression
    have hissues : Screen.issues l.maxExpressionLength source =
        Screen.issues l'.maxExpressionLength source :=
      issues_of_length_le (by omega) (by omega)
    unfold evaluate
    rw [hissues]
    rcases Screen.issues l'.maxExpressionLength source with _ | ⟨issue, issues⟩
    · dsimp only
      rcases ctx.isolate? with _ | roots
      · exact Or.inl rfl
      · dsimp only
        rcases Parser.shallower_parse h.depth source with he | ⟨limit, he⟩
        · rw [he]
          rcases Expr.parse l'.maxDepth source with fault | e
          · exact Or.inl rfl
          · have hn := h.narrower hfits hclock now (rootValues roots) zones
            rcases run_in_cut_short hn e with he | ⟨cause, he, hc⟩
            · exact Or.inl he
            · exact Or.inr ⟨.fault cause, he, hc⟩
        · rw [he]
          exact Or.inr ⟨.fault (.exceeded (.parsing limit)), rfl, nofun⟩
    · exact Or.inl rfl

theorem tighter_eight_levels : ({ maxDepth := 8 } : Limits).Tighter {} where
  expression := Nat.le_refl _
  collection := Nat.le_refl _
  string := Nat.le_refl _
  depth := by decide
  total := Nat.le_refl _

theorem evaluate_cut_short_eight_levels :
    ({ maxDepth := 8 } : Limits).Tighter {} ∧
      (evaluate { maxDepth := 8 } ⟨0, 0⟩ "[[1]].map(x => typeof x)" {} =
          evaluate {} ⟨0, 0⟩ "[[1]].map(x => typeof x)" {} ∨
        ∃ failure, evaluate { maxDepth := 8 } ⟨0, 0⟩ "[[1]].map(x => typeof x)" {} =
          .error failure ∧ failure.IsLimit) :=
  ⟨tighter_eight_levels,
    evaluate_cut_short tighter_eight_levels (by decide) (fun _ h => h) ⟨0, 0⟩ _ {} .known⟩

end Workflow
