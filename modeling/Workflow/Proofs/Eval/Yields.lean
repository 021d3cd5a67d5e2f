import Mathlib.Tactic.Common
import Workflow.Eval.ArrayMethods

/-! The results that evaluations can have, whatever they start from. Sorting loses no items and adds
none, even if the comparison is no order. -/
namespace Workflow.Eval

/-- `a` is a result that `m` can have. -/
def Yields {α : Type} (m : EvalM α) (a : α) : Prop :=
  ∃ setting meter meter', m setting meter = .ok a meter'

theorem eq_of_yields_pure {α : Type} {a b : α} (h : Yields (pure a) b) : b = a := by
  obtain ⟨setting, meter, meter', h⟩ := h
  cases h
  rfl

theorem pure_inj {α : Type} {a b : α} (h : (pure a : EvalM α) = pure b) : a = b := by
  have hrun := congrFun (congrFun h ⟨{}, ⟨0, 0⟩, [], .known, fun _ => 0⟩) {}
  exact (EStateM.Result.ok.inj hrun).1

theorem pure_ne_fail {α : Type} {a : α} {f : Fault} : (pure a : EvalM α) ≠ fail f := by
  intro h
  have hrun := congrFun (congrFun h ⟨{}, ⟨0, 0⟩, [], .known, fun _ => 0⟩) {}
  cases hrun

theorem yields_bind {α β : Type} {m : EvalM α} {f : α → EvalM β} {b : β}
    (h : Yields (m >>= f) b) : ∃ a, Yields m a ∧ Yields (f a) b := by
  obtain ⟨setting, meter, meter', h⟩ := h
  simp only [bind, ReaderT.bind, EStateM.bind] at h
  split at h
  · next a meter₁ ha => exact ⟨a, ⟨setting, meter, meter₁, ha⟩, setting, meter₁, meter', h⟩
  · cases h

theorem yields_callback {args : List Value} {i : Nat} {role : String} {f : Value}
    (h : Yields (callback args i role) f) : f = Value.arg args i := by
  unfold callback at h
  dsimp only at h
  split at h
  · exact eq_of_yields_pure h
  · obtain ⟨setting, meter, meter', h⟩ := h
    cases h

theorem perm_of_merge_from {behind : Value → Value → EvalM Bool} (left right : List Value) :
    ∀ done merged, Yields (mergeFrom behind done left right) merged →
      merged.Perm (done ++ (left ++ right)) := by
  induction hn : left.length + right.length generalizing left right with
  | zero =>
    intro done merged h
    obtain rfl : left = [] := List.length_eq_zero_iff.1 (by omega)
    simp only [mergeFrom] at h
    rw [eq_of_yields_pure h]
    exact (List.reverse_perm done).append_right _
  | succ n ih =>
    intro done merged h
    rcases left with _ | ⟨a, left⟩
    · simp only [mergeFrom] at h
      rw [eq_of_yields_pure h]
      exact (List.reverse_perm done).append_right _
    · rcases right with _ | ⟨b, right⟩
      · simp only [mergeFrom] at h
        rw [eq_of_yields_pure h, List.append_nil]
        exact (List.reverse_perm done).append_right _
      · simp only [List.length_cons] at hn
        simp only [mergeFrom] at h
        obtain ⟨goes, _, h⟩ := yields_bind h
        cases goes with
        | true =>
          have hm := ih (a :: left) right (by simp only [List.length_cons]; omega) _ _ h
          calc merged
            _ |>.Perm (b :: (done ++ (a :: left ++ right))) := hm
            _ |>.Perm (done ++ b :: (a :: left ++ right)) := List.perm_middle.symm
            _ |>.Perm (done ++ (a :: left ++ b :: right)) := List.perm_middle.symm.append_left done
        | false =>
          have hm := ih left (b :: right) (by simp only [List.length_cons]; omega) _ _ h
          exact hm.trans List.perm_middle.symm

theorem perm_of_sort_items {behind : Value → Value → EvalM Bool} (items : List Value) :
    ∀ sorted, Yields (sortItems behind items) sorted → sorted.Perm items := by
  induction hn : items.length using Nat.strongRecOn generalizing items with
  | ind n ih =>
    intro sorted h
    rw [sortItems] at h
    split at h
    · rw [eq_of_yields_pure h]
    · dsimp only at h
      obtain ⟨left, hl, h⟩ := yields_bind h
      obtain ⟨right, hr, h⟩ := yields_bind h
      have hleft := ih _ (by rw [List.length_take]; omega) _ rfl _ hl
      have hright := ih _ (by rw [List.length_drop]; omega) _ rfl _ hr
      have hm := perm_of_merge_from _ _ _ _ h
      rw [List.nil_append] at hm
      have hs := hm.trans (hleft.append hright)
      rwa [List.take_append_drop] at hs

end Workflow.Eval
