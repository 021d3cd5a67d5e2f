import Workflow.Proofs.Eval.CallFree
import Workflow.Proofs.Eval.Yields

/-! Which values an evaluation calls. It is made of steps that call nothing, of levels of nesting,
and of calls; a property of all of them that composes is one of every evaluation. -/
namespace Workflow.Eval

/-- Evaluations, as functions of a way to call values, that call only what is allowed. -/
inductive CallsOnly (allowed : Value → List Value → Prop) : {α : Type} → (Caller → EvalM α) → Prop
  | free {α : Type} {m : EvalM α} : CallFree m → CallsOnly allowed fun _ => m
  | andThen {α β : Type} {m : Caller → EvalM α} {f : Caller → α → EvalM β} :
    CallsOnly allowed m →
      (∀ a, (∃ call, Yields (m call) a) → CallsOnly allowed fun call => f call a) →
      CallsOnly allowed fun call => m call >>= f call
  | call {f : Value} {args : List Value} : allowed f args → CallsOnly allowed fun call => call f args
  | deeper {α : Type} {m : Caller → EvalM α} {cause : Nat → Excess} :
    (∀ limit, cause limit ≠ .fuel) → CallsOnly allowed m →
      CallsOnly allowed fun call => deeper cause (m call)
  | calling {α : Type} {m : Caller → EvalM α} :
    CallsOnly allowed m → CallsOnly allowed fun call => calling (m call)

namespace CallsOnly

variable {allowed : Value → List Value → Prop}

theorem mono {allowed' : Value → List Value → Prop} (h : ∀ f args, allowed f args → allowed' f args)
    {α : Type} {m : Caller → EvalM α} (hm : CallsOnly allowed m) : CallsOnly allowed' m := by
  induction hm with
  | free hm => exact free hm
  | andThen _ _ ihm ihf => exact andThen ihm ihf
  | call ha => exact call (h _ _ ha)
  | deeper hc _ ih => exact deeper hc ih
  | calling _ ih => exact calling ih

theorem pure {α : Type} (a : α) : CallsOnly allowed fun _ => (Pure.pure a : EvalM α) :=
  free (CallFree.pure a)

theorem bind {α β : Type} {m : Caller → EvalM α} {f : Caller → α → EvalM β}
    (hm : CallsOnly allowed m) (hf : ∀ a, CallsOnly allowed fun call => f call a) :
    CallsOnly allowed fun call => m call >>= f call :=
  andThen hm fun a _ => hf a

theorem map {α β : Type} {m : Caller → EvalM α} (g : α → β) (hm : CallsOnly allowed m) :
    CallsOnly allowed fun call => g <$> m call := by
  simp only [map_eq_pure_bind]
  exact bind hm fun a => pure (g a)

theorem with_callback {args : List Value} (i : Nat) (role : String)
    (m : Caller → Value → EvalM Value)
    (h : CallsOnly allowed fun call => m call (Value.arg args i)) :
    CallsOnly allowed fun call => callback args i role >>= m call := by
  apply andThen (free (CallFree.callback _ _ _))
  rintro f ⟨_, hf⟩
  rw [yields_callback hf]
  exact h

section Loops

variable {f : Value} {rest : Nat → List Value}

theorem map_from (items : List Value) (h : ∀ v ∈ items, ∀ i, allowed f (v :: rest i)) :
    ∀ i done, CallsOnly allowed fun call => mapFrom (call f) rest i done items := by
  induction items with
  | nil => exact fun _ _ => pure _
  | cons v items ih =>
    intro i done
    apply bind (call (h v List.mem_cons_self i))
    intro w
    exact ih (fun v hv => h v (List.mem_cons_of_mem _ hv)) _ _

theorem filter_from (items : List Value) (h : ∀ v ∈ items, ∀ i, allowed f (v :: rest i)) :
    ∀ i done, CallsOnly allowed fun call => filterFrom (call f) rest i done items := by
  induction items with
  | nil => exact fun _ _ => pure _
  | cons v items ih =>
    intro i done
    apply bind (call (h v List.mem_cons_self i))
    intro w
    exact ih (fun v hv => h v (List.mem_cons_of_mem _ hv)) _ _

theorem search_from (wanted : Bool) (items : List Value)
    (h : ∀ v ∈ items, ∀ i, allowed f (v :: rest i)) :
    ∀ i, CallsOnly allowed fun call => searchFrom (call f) rest wanted i items := by
  induction items with
  | nil => exact fun _ => pure _
  | cons v items ih =>
    intro i
    apply bind (call (h v List.mem_cons_self i))
    intro w
    by_cases hw : w.isTruthy = wanted
    · simp only [hw, if_true]
      exact pure _
    · simp only [hw, if_false]
      exact ih (fun v hv => h v (List.mem_cons_of_mem _ hv)) _

theorem for_each_from (items : List Value) (h : ∀ v ∈ items, ∀ i, allowed f (v :: rest i)) :
    ∀ i, CallsOnly allowed fun call => forEachFrom (call f) rest i items := by
  induction items with
  | nil => exact fun _ => pure _
  | cons v items ih =>
    intro i
    apply bind (call (h v List.mem_cons_self i))
    intro w
    exact ih (fun v hv => h v (List.mem_cons_of_mem _ hv)) _

theorem reduce_from (items : List Value)
    (h : ∀ v ∈ items, ∀ i sum, allowed f (sum :: v :: rest i)) :
    ∀ i sum, CallsOnly allowed fun call => reduceFrom (call f) rest i sum items := by
  induction items with
  | nil => exact fun _ _ => pure _
  | cons v items ih =>
    intro i sum
    apply bind (call (h v List.mem_cons_self i sum))
    intro w
    exact ih (fun v hv => h v (List.mem_cons_of_mem _ hv)) _ _

end Loops

section Sorting

variable (behind : Caller → Value → Value → EvalM Bool)

theorem merge_from (left right : List Value)
    (h : ∀ a ∈ left, ∀ b ∈ right, CallsOnly allowed fun call => behind call a b) :
    ∀ done, CallsOnly allowed fun call => mergeFrom (behind call) done left right := by
  -- either list may be the one that gets shorter, so the induction is on both lengths together
  induction hn : left.length + right.length generalizing left right with
  | zero =>
    obtain rfl : left = [] := List.length_eq_zero_iff.1 (by omega)
    intro done
    simp only [mergeFrom]
    exact pure _
  | succ n ih =>
    intro done
    rcases left with _ | ⟨a, left⟩
    · simp only [mergeFrom]
      exact pure _
    · rcases right with _ | ⟨b, right⟩
      · simp only [mergeFrom]
        exact pure _
      · simp only [List.length_cons] at hn
        simp only [mergeFrom]
        apply bind (h a List.mem_cons_self b List.mem_cons_self)
        intro goes
        cases goes with
        | true =>
          have hshort : (a :: left).length + right.length = n := by
            simp only [List.length_cons]
            omega
          refine ih (a :: left) right (fun x hx y hy => ?_) hshort _
          exact h x hx y (List.mem_cons_of_mem _ hy)
        | false =>
          have hshort : left.length + (b :: right).length = n := by
            simp only [List.length_cons]
            omega
          refine ih left (b :: right) (fun x hx y hy => ?_) hshort _
          exact h x (List.mem_cons_of_mem _ hx) y hy

theorem sort_items (items : List Value)
    (h : ∀ a ∈ items, ∀ b ∈ items, CallsOnly allowed fun call => behind call a b) :
    CallsOnly allowed fun call => sortItems (behind call) items := by
  induction hn : items.length using Nat.strongRecOn generalizing items with
  | ind n ih =>
    by_cases hs : items.length ≤ 1
    · have hp (call : Caller) : sortItems (behind call) items = Pure.pure items := by
        rw [sortItems, dif_pos hs]
      simp only [hp]
      exact pure _
    · have hp (call : Caller) : sortItems (behind call) items =
          sortItems (behind call) (items.take (items.length / 2)) >>= fun left =>
            sortItems (behind call) (items.drop (items.length / 2)) >>= fun right =>
              mergeFrom (behind call) [] left right := by
        rw [sortItems, dif_neg hs]
      simp only [hp]
      have htake := ih _ (by rw [List.length_take]; omega) (items.take (items.length / 2))
        (fun a ha b hb => h a (List.mem_of_mem_take ha) b (List.mem_of_mem_take hb)) rfl
      have hdrop := ih _ (by rw [List.length_drop]; omega) (items.drop (items.length / 2))
        (fun a ha b hb => h a (List.mem_of_mem_drop ha) b (List.mem_of_mem_drop hb)) rfl
      -- what is merged are the sorted halves, whose items are items of the list
      apply andThen htake
      rintro left ⟨_, hleft⟩
      apply andThen hdrop
      rintro right ⟨_, hright⟩
      refine merge_from behind left right (fun a ha b hb => ?_) []
      exact h a (List.mem_of_mem_take ((perm_of_sort_items _ _ hleft).mem_iff.1 ha))
        b (List.mem_of_mem_drop ((perm_of_sort_items _ _ hright).mem_iff.1 hb))

end Sorting

section Replacing

variable {replacer : Value}

theorem with_replacement (pattern : String)
    (h : replacer.isFunction = true → allowed replacer [.string pattern]) (out : String) :
    CallsOnly allowed fun call => withReplacement call pattern replacer out := by
  unfold withReplacement
  refine bind ?_ fun s => free (CallFree.bind (CallFree.checkBytes _) fun _ => CallFree.pure _)
  unfold replacement
  by_cases hf : replacer.isFunction = true
  · simp only [hf, if_true]
    exact bind (call (h hf)) fun _ => pure _
  · simp only [hf]
    exact pure _

theorem interleave (s : List Char) (h : replacer.isFunction = true → allowed replacer [.string ""]) :
    ∀ out, CallsOnly allowed fun call => Eval.interleave call replacer out s := by
  induction s with
  | nil => exact fun out => with_replacement "" h out
  | cons c s ih => exact fun out => bind (with_replacement "" h out) fun _ => ih _

theorem replace_all_from (pattern : List Char) (s : List Char)
    (h : replacer.isFunction = true → allowed replacer [.string (String.ofList pattern)]) :
    ∀ out, CallsOnly allowed fun call => replaceAllFrom call pattern replacer out s := by
  induction hn : s.length using Nat.strongRecOn generalizing s with
  | ind n ih =>
    intro out
    -- no matter how the text is cut, all ways to call see the same cut
    by_cases hp : pattern = []
    · have he (call : Caller) :
          replaceAllFrom call pattern replacer out s = Pure.pure (out ++ String.ofList s) := by
        rw [replaceAllFrom, dif_pos hp]
      simp only [he]
      exact pure _
    · cases hc : Text.cut? pattern s with
      | none =>
        have he (call : Caller) :
            replaceAllFrom call pattern replacer out s = Pure.pure (out ++ String.ofList s) := by
          rw [replaceAllFrom, dif_neg hp]
          split
          · rfl
          · simp_all only [reduceCtorEq]
        simp only [he]
        exact pure _
      | some cut =>
        obtain ⟨before, after⟩ := cut
        have he (call : Caller) : replaceAllFrom call pattern replacer out s =
            withReplacement call (String.ofList pattern) replacer (out ++ String.ofList before) >>=
              fun out => replaceAllFrom call pattern replacer out after := by
          rw [replaceAllFrom, dif_neg hp]
          split
          · simp_all only [reduceCtorEq]
          · simp_all only [Option.some.injEq, Prod.mk.injEq]
        have hlen := congrArg List.length (Text.cut?_append hc)
        have hpos := List.length_pos_iff.2 hp
        simp only [List.length_append] at hlen
        simp only [he]
        exact bind (with_replacement _ h _) fun out => ih _ (by omega) after rfl out

theorem replace_first (pattern s : List Char)
    (h : replacer.isFunction = true → allowed replacer [.string (String.ofList pattern)]) :
    CallsOnly allowed fun call => replaceFirst call pattern replacer s := by
  unfold replaceFirst
  split
  · exact pure _
  · exact bind (with_replacement _ h _) fun _ => pure _

theorem replace_all (pattern s : List Char)
    (h : replacer.isFunction = true → allowed replacer [.string (String.ofList pattern)]) :
    CallsOnly allowed fun call => replaceAll call pattern replacer s := by
  unfold replaceAll
  cases pattern with
  | nil => exact interleave s h _
  | cons c pattern => exact replace_all_from _ s h _

end Replacing

end CallsOnly

end Workflow.Eval
