import Workflow.Eval.Run
import Workflow.Proofs.Eval.Meter
import Workflow.Proofs.Eval.Yields

/-! Sorting, apart from what compares the items. A sort asks for one comparison after the other, and
where it goes on depends on the answers alone. If these come from an order, the result is in that
order, and keeps the order of the items where it can. -/
namespace Workflow

/-- The relation is total and transitive among the items. -/
structure Orders {α : Type} (le : α → α → Prop) (items : List α) : Prop where
  total : ∀ a ∈ items, ∀ b ∈ items, le a b ∨ le b a
  trans : ∀ a ∈ items, ∀ b ∈ items, ∀ c ∈ items, le a b → le b c → le a c

/-- The items in order. Those among them that are in order already, such as items that are as good
as each other, keep their places. -/
structure StablySorted {α : Type} (le : α → α → Prop) (items sorted : List α) : Prop where
  perm : sorted.Perm items
  ordered : sorted.Pairwise le
  stable : ∀ kept : List α, kept.Pairwise le → kept.Sublist items → kept.Sublist sorted

section

variable {α : Type} {le : α → α → Prop} {items left right : List α}

theorem Orders.mono (h : Orders le items) {some : List α} (hs : ∀ a ∈ some, a ∈ items) :
    Orders le some where
  total a ha b hb := h.total a (hs a ha) b (hs b hb)
  trans a ha b hb c hc := h.trans a (hs a ha) b (hs b hb) c (hs c hc)

theorem stablySorted_self (h : items.length ≤ 1) : StablySorted le items items where
  perm := .refl _
  ordered := by
    rcases items with _ | ⟨a, _ | ⟨b, rest⟩⟩
    · exact .nil
    · exact List.pairwise_singleton le a
    · simp at h
  stable _ _ hk := hk

variable [DecidableRel le]

/-- The first of two items in front, as the order says. -/
def mergeBy (le : α → α → Prop) [DecidableRel le] (left right : List α) : List α :=
  left.merge right fun a b => le a b

theorem mergeBy_cons (a b : α) (left right : List α) :
    mergeBy le (a :: left) (b :: right) =
      if le a b then a :: mergeBy le left (b :: right) else b :: mergeBy le (a :: left) right := by
  unfold mergeBy
  rw [List.cons_merge_cons]
  simp only [decide_eq_true_eq]

theorem ordered_mergeBy (h : Orders le (left ++ right)) (hl : left.Pairwise le)
    (hr : right.Pairwise le) : (mergeBy le left right).Pairwise le := by
  induction left generalizing right with
  | nil => simpa [mergeBy] using hr
  | cons a left ihl =>
    induction right with
    | nil => simpa [mergeBy] using hl
    | cons b right ihr =>
      obtain ⟨hal, hl'⟩ := List.pairwise_cons.1 hl
      obtain ⟨hbr, hr'⟩ := List.pairwise_cons.1 hr
      have ha : a ∈ a :: left ++ b :: right := List.mem_append_left _ List.mem_cons_self
      have hb : b ∈ a :: left ++ b :: right := List.mem_append_right _ List.mem_cons_self
      rw [mergeBy_cons]
      by_cases hab : le a b
      · rw [if_pos hab]
        refine List.pairwise_cons.2 ⟨fun c hc => ?_, ihl (h.mono ?_) hl' hr⟩
        · rcases List.mem_merge.1 hc with hc | hc
          · exact hal c hc
          · rcases List.mem_cons.1 hc with rfl | hc
            · exact hab
            · exact h.trans a ha b hb c (by simp [hc]) hab (hbr c hc)
        · intro c hc
          rw [List.cons_append]
          exact List.mem_cons_of_mem _ hc
      · have hba : le b a := (h.total a ha b hb).resolve_left hab
        rw [if_neg hab]
        refine List.pairwise_cons.2 ⟨fun c hc => ?_, ihr (h.mono ?_) hr'⟩
        · rcases List.mem_merge.1 hc with hc | hc
          · rcases List.mem_cons.1 hc with rfl | hc
            · exact hba
            · exact h.trans b hb a ha c (by simp [hc]) hba (hal c hc)
          · exact hbr c hc
        · intro c hc
          rcases List.mem_append.1 hc with hc | hc
          · exact List.mem_append_left _ hc
          · exact List.mem_append_right _ (List.mem_cons_of_mem _ hc)

/-- Items of both sides that are in order keep their places. -/
theorem sublist_mergeBy (h : Orders le (left ++ right)) (hl : left.Pairwise le)
    {first second : List α} (hf : first.Sublist left) (hs : second.Sublist right)
    (hle : ∀ a ∈ first, ∀ b ∈ second, le a b) :
    (first ++ second).Sublist (mergeBy le left right) := by
  induction left generalizing right first second with
  | nil =>
    obtain rfl := List.sublist_nil.1 hf
    simpa [mergeBy] using hs
  | cons a left ihl =>
    induction right generalizing first second with
    | nil =>
      obtain rfl := List.sublist_nil.1 hs
      simpa [mergeBy] using hf
    | cons b right ihr =>
      have hleft : Orders le (left ++ b :: right) := h.mono fun c hc => by
        rw [List.cons_append]
        exact List.mem_cons_of_mem _ hc
      have hright : Orders le (a :: left ++ right) := h.mono fun c hc => by
        rcases List.mem_append.1 hc with hc | hc
        · exact List.mem_append_left _ hc
        · exact List.mem_append_right _ (List.mem_cons_of_mem _ hc)
      rw [mergeBy_cons]
      by_cases hab : le a b
      · rw [if_pos hab]
        cases hf with
        | cons _ hf => exact (ihl hleft hl.of_cons hf hs hle).cons a
        | cons_cons _ hf =>
          rw [List.cons_append]
          refine (ihl hleft hl.of_cons hf hs fun c hc => ?_).cons_cons a
          exact hle c (List.mem_cons_of_mem _ hc)
      · rw [if_neg hab]
        cases hs with
        | cons _ hs => exact (ihr hright hf hs hle).cons b
        | cons_cons _ hs =>
          -- what is in front of `b` is in order with it, and all of the left side is behind it
          have hnone : first = [] := by
            refine List.eq_nil_iff_forall_not_mem.2 fun c hc => hab ?_
            have hcb := hle c hc b List.mem_cons_self
            rcases List.mem_cons.1 (hf.subset hc) with rfl | hleft
            · exact hcb
            · exact h.trans a (by simp) c (by simp [hleft]) b (by simp)
                ((List.pairwise_cons.1 hl).1 c hleft) hcb
          subst hnone
          exact (ihr hright (List.nil_sublist _) hs (List.forall_mem_nil _)).cons_cons b

theorem stablySorted_mergeBy {sorted sorted' : List α} (h : Orders le (left ++ right))
    (hl : StablySorted le left sorted) (hr : StablySorted le right sorted') :
    StablySorted le (left ++ right) (mergeBy le sorted sorted') := by
  have hm : Orders le (sorted ++ sorted') :=
    h.mono fun a ha => (hl.perm.append hr.perm).mem_iff.1 ha
  refine ⟨(List.merge_perm_append _).trans (hl.perm.append hr.perm),
    ordered_mergeBy hm hl.ordered hr.ordered, fun kept hk hsub => ?_⟩
  obtain ⟨first, second, rfl, hf, hs⟩ := List.sublist_append_iff.1 hsub
  obtain ⟨hkf, hks, hle⟩ := List.pairwise_append.1 hk
  exact sublist_mergeBy hm hl.ordered (hl.stable _ hkf hf) (hr.stable _ hks hs) hle

end

namespace Eval

/-- What is found out by comparing values: what is compared next depends on the answers so far. -/
inductive Comparing (α : Type) where
  | done (a : α)
  | ask (v w : Value) (next : Bool → Comparing α)

namespace Comparing

variable {α β : Type} {behind : Value → Value → EvalM Bool} {s : Setting}

def bind : Comparing α → (α → Comparing β) → Comparing β
  | done a, f => f a
  | ask v w next, f => ask v w fun r => (next r).bind f

/-- The evaluation that lets `behind` answer. -/
def run (behind : Value → Value → EvalM Bool) : Comparing α → EvalM α
  | done a => pure a
  | ask v w next => do (next (← behind v w)).run behind

/-- The result if an order answers whether the first value goes behind the second. -/
def answered (le : Value → Value → Prop) [DecidableRel le] : Comparing α → α
  | done a => a
  | ask v w next => (next !(decide (le v w))).answered le

/-- In an evaluation from the first meter on, two values are compared when the second meter is
reached. -/
inductive Asks (behind : Value → Value → EvalM Bool) (s : Setting) :
    Comparing α → Meter → Value → Value → Meter → Prop
  | first (v w : Value) (next : Bool → Comparing α) (t : Meter) :
    Asks behind s (ask v w next) t v w t
  | later {v w v' w' : Value} {next : Bool → Comparing α} {t t' u : Meter} {r : Bool} :
    behind v w s t = .ok r t' → Asks behind s (next r) t' v' w' u →
      Asks behind s (ask v w next) t v' w' u

theorem run_bind (c : Comparing α) (f : α → Comparing β) :
    (c.bind f).run behind = c.run behind >>= fun a => (f a).run behind := by
  induction c with
  | done a => exact (pure_bind _ _).symm
  | ask v w next ih =>
    simp only [bind, run, bind_assoc, ih]

theorem answered_bind {le : Value → Value → Prop} [DecidableRel le] (c : Comparing α)
    (f : α → Comparing β) : (c.bind f).answered le = (f (c.answered le)).answered le := by
  induction c with
  | done a => rfl
  | ask v w next ih => exact ih _

/-- What every comparison leaves as it is holds whenever values are compared. -/
theorem asks_of_preserved {P : Meter → Prop} {c : Comparing α} {t u : Meter} {v w : Value}
    (hstep : ∀ v w t r u, P t → behind v w s t = .ok r u → P u) (ht : P t)
    (h : Asks behind s c t v w u) : P u := by
  induction h with
  | first => exact ht
  | later hr _ ih => exact ih (hstep _ _ _ _ _ ht hr)

/-- An evaluation fails where one of its comparisons fails. -/
theorem run_eq_error_of_asks {c : Comparing α} {t u t' : Meter} {v w : Value} {fault : Fault}
    (h : Asks behind s c t v w u) (hf : behind v w s u = .error fault t') :
    c.run behind s t = .error fault t' := by
  induction h with
  | first v w next t => rw [run, Eval.run_bind, hf]
  | later hr _ ih =>
    rw [run, Eval.run_bind, hr]
    exact ih hf

/-- If no comparison fails, an evaluation has a result. -/
theorem exists_run_eq_ok {c : Comparing α} {t : Meter}
    (h : ∀ v w u, Asks behind s c t v w u → ∃ r t', behind v w s u = .ok r t') :
    ∃ a u, c.run behind s t = .ok a u := by
  induction c generalizing t with
  | done a => exact ⟨a, t, rfl⟩
  | ask v w next ih =>
    obtain ⟨r, t', hr⟩ := h v w t (.first v w next t)
    obtain ⟨a, u, ha⟩ := ih r fun v w u hasks => h v w u (.later hr hasks)
    refine ⟨a, u, ?_⟩
    rw [run, Eval.run_bind, hr]
    exact ha

/-- If an order gives the answers, the result is the one by that order. -/
theorem eq_answered_of_run {le : Value → Value → Prop} [DecidableRel le] {c : Comparing α}
    {t u : Meter} {a : α} (h : c.run behind s t = .ok a u)
    (hle : ∀ v w t', Asks behind s c t v w t' → ∀ r u', behind v w s t' = .ok r u' →
      (r = true ↔ ¬ le v w)) : a = c.answered le := by
  induction c generalizing t with
  | done a =>
    cases h
    rfl
  | ask v w next ih =>
    obtain ⟨r, t', hr, hnext⟩ := exists_of_bind h
    have hanswer : r = !(decide (le v w)) := by
      have := hle v w t (.first v w next t) r t' hr
      by_cases hvw : le v w
      · simpa [hvw] using this
      · simpa [hvw] using this
    rw [answered, ← hanswer]
    exact ih r hnext fun v w t' hasks => hle v w t' (.later hr hasks)

/-- If the answers are at hand, they are all that is needed. -/
theorem run_eq_pure {le : Value → Value → Prop} [DecidableRel le]
    (h : ∀ v w, behind v w = pure !(decide (le v w))) (c : Comparing α) :
    c.run behind = pure (c.answered le) := by
  induction c with
  | done a => rfl
  | ask v w next ih =>
    rw [run, h, pure_bind]
    exact ih _

def merge (done : List Value) : (left right : List Value) → Comparing (List Value)
  | [], right => .done (done.reverse ++ right)
  | left, [] => .done (done.reverse ++ left)
  | a :: left, b :: right =>
    ask a b fun goesBehind =>
      if goesBehind then merge (b :: done) (a :: left) right
      else merge (a :: done) left (b :: right)
termination_by left right => left.length + right.length

def sort (items : List Value) : Comparing (List Value) :=
  if _h : items.length ≤ 1 then .done items
  else
    let half := items.length / 2
    (sort (items.take half)).bind fun left =>
      (sort (items.drop half)).bind fun right => merge [] left right
termination_by items.length
decreasing_by
  · simp only [List.length_take]
    omega
  · simp only [List.length_drop]
    omega

theorem run_merge (done left right : List Value) :
    (merge done left right).run behind = mergeFrom behind done left right := by
  induction left generalizing done right with
  | nil => simp only [merge, mergeFrom, run]
  | cons a left ihl =>
    induction right generalizing done with
    | nil => simp only [merge, mergeFrom, run]
    | cons b right ihr =>
      rw [merge, mergeFrom, run]
      refine bind_congr fun r => ?_
      cases r with
      | true => exact ihr (b :: done)
      | false => exact ihl (a :: done) (b :: right)

theorem answered_merge {le : Value → Value → Prop} [DecidableRel le]
    (done left right : List Value) :
    (merge done left right).answered le = done.reverse ++ mergeBy le left right := by
  induction left generalizing done right with
  | nil => simp [merge, mergeBy, answered]
  | cons a left ihl =>
    induction right generalizing done with
    | nil => simp [merge, mergeBy, answered]
    | cons b right ihr =>
      rw [merge, mergeBy_cons, answered]
      by_cases hab : le a b
      · rw [if_pos hab, decide_eq_true hab]
        show (merge (a :: done) left (b :: right)).answered le = _
        rw [ihl, List.reverse_cons, List.append_assoc, List.singleton_append]
      · rw [if_neg hab, decide_eq_false hab]
        show (merge (b :: done) (a :: left) right).answered le = _
        rw [ihr, List.reverse_cons, List.append_assoc, List.singleton_append]

/-- A sort makes these comparisons and no others. -/
theorem run_sort (items : List Value) : (sort items).run behind = sortItems behind items := by
  fun_induction sort items with
  | case1 items h => rw [sortItems, dif_pos h, run]
  | case2 items h half ihl ihr =>
    rw [sortItems, dif_neg h, run_bind, ihl]
    refine bind_congr fun left => ?_
    rw [run_bind, ihr]
    exact bind_congr fun right => run_merge [] left right

theorem stablySorted_answered_sort {le : Value → Value → Prop} [DecidableRel le]
    {items : List Value} (h : Orders le items) : StablySorted le items ((sort items).answered le) := by
  fun_induction sort items with
  | case1 items hone => exact stablySorted_self hone
  | case2 items hmany half ihl ihr =>
    have hl := ihl (h.mono fun a => List.mem_of_mem_take)
    have hr := ihr (h.mono fun a => List.mem_of_mem_drop)
    rw [answered_bind, answered_bind, answered_merge, List.reverse_nil, List.nil_append]
    rw [← List.take_append_drop half items] at h
    have hm := stablySorted_mergeBy h hl hr
    rwa [List.take_append_drop] at hm

end Comparing

namespace Value

/-- By their texts a value is not behind another one; nothing is behind everything. -/
def InTextOrder (v w : Value) : Prop :=
  w = .undefined ∨ v ≠ .undefined ∧ v.display ≤ w.display

theorem orders_inTextOrder (items : List Value) : Orders InTextOrder items where
  total v _ w _ := by
    by_cases hv : v = .undefined
    · exact Or.inr (Or.inl hv)
    · by_cases hw : w = .undefined
      · exact Or.inl (Or.inl hw)
      · exact (String.le_total v.display w.display).imp (fun h => Or.inr ⟨hv, h⟩)
          fun h => Or.inr ⟨hw, h⟩
  trans u _ v _ w _ huv hvw := by
    rcases hvw with rfl | ⟨hv, hvw⟩
    · exact Or.inl rfl
    · obtain ⟨hu, huv⟩ := huv.resolve_left hv
      exact Or.inr ⟨hu, String.le_trans huv hvw⟩

theorem textOrder_gt_iff {s t : String} : (textOrder s t == .gt) = true ↔ ¬ s ≤ t := by
  unfold textOrder
  by_cases hlt : s < t
  · rw [if_pos hlt]
    exact iff_of_false (by decide) (not_not_intro (Std.le_of_lt hlt))
  · rw [if_neg hlt]
    by_cases heq : s = t
    · rw [if_pos heq]
      exact iff_of_false (by decide) (not_not_intro (heq ▸ String.le_refl s))
    · rw [if_neg heq]
      exact iff_of_true rfl fun h => heq (String.le_antisymm h (String.not_lt.1 hlt))

theorem goesBehind_iff (v w : Value) : v.goesBehind w = true ↔ ¬ InTextOrder v w := by
  unfold goesBehind InTextOrder
  split
  · simp
  · rename_i hw
    simpa using hw
  · simp
  · rename_i hv hw _
    rw [textOrder_gt_iff]
    simp only [show v ≠ .undefined from hv, show w ≠ .undefined from hw, ne_eq, not_false_eq_true,
      true_and, false_or]

end Value

variable {call : Caller} {mark : Mark} {items args : List Value} {s : Setting} {t : Meter}

/-- Whether the first of two values goes behind the second, as a function says. -/
def behindBy (call : Caller) (f v w : Value) : EvalM Bool := do
  return 0.0 < (← call f [v, w]).toNumber

theorem arrayMethod_sort_of_text (hargs : Value.arg args 0 = .undefined) :
    arrayMethod call mark items .sort args =
      sortItems (fun v w => pure (v.goesBehind w)) items >>= freeArray := by
  show (do freeArray (← sortItems (← comparison call args) items)) = _
  unfold comparison
  rw [hargs, pure_bind]

theorem arrayMethod_sort_of_function (hf : (Value.arg args 0).isFunction = true) :
    arrayMethod call mark items .sort args =
      sortItems (behindBy call (Value.arg args 0)) items >>= freeArray := by
  show (do freeArray (← sortItems (← comparison call args) items)) = _
  have hc : comparison call args = pure (behindBy call (Value.arg args 0)) := by
    unfold comparison callback
    split
    · rename_i h
      rw [h] at hf
      contradiction
    · rw [if_pos hf, pure_bind]
      rfl
  rw [hc, pure_bind]

/-- Without a function, nothing can fail. -/
theorem run_sort_of_text (hargs : Value.arg args 0 = .undefined) :
    ∃ mark' sorted, arrayMethod call mark items .sort args s t =
        .ok (.array mark' sorted) { t with made := t.made + 1 } ∧
      StablySorted Value.InTextOrder items sorted := by
  classical
  have hanswers (v w : Value) : (pure (v.goesBehind w) : EvalM Bool) =
      pure !(decide (Value.InTextOrder v w)) := by
    have := Value.goesBehind_iff v w
    by_cases h : Value.InTextOrder v w
    · simp_all
    · simp_all
  refine ⟨{ origin := .made t.made }, (Comparing.sort items).answered Value.InTextOrder, ?_,
    Comparing.stablySorted_answered_sort (Value.orders_inTextOrder items)⟩
  rw [arrayMethod_sort_of_text hargs, ← Comparing.run_sort, Comparing.run_eq_pure hanswers,
    pure_bind]
  rfl

theorem behindBy_eq_error {f v w : Value} {t u : Meter} {fault : Fault}
    (h : call f [v, w] s t = .error fault u) : behindBy call f v w s t = .error fault u := by
  rw [behindBy, run_bind, h]

theorem exists_of_behindBy {f v w : Value} {t u : Meter} {r : Bool}
    (h : behindBy call f v w s t = .ok r u) :
    ∃ x, call f [v, w] s t = .ok x u ∧ r = decide (0.0 < x.toNumber) := by
  obtain ⟨x, t', hx, hr⟩ := exists_of_bind h
  cases hr
  exact ⟨x, hx, rfl⟩

/-- The function is called for these two items when the sort that begins at the first meter reaches
the second one. -/
abbrev SortAsks (call : Caller) (f : Value) (items : List Value) (s : Setting) :
    Meter → Value → Value → Meter → Prop :=
  (Comparing.sort items).Asks (behindBy call f) s

/-- Sorting an array. By the texts of the items it never fails. With a function that compares them,
it fails as soon as a call of the function fails, in the same way; else it has the same items, if
need be in no order, and if the answers come from an order, then stably sorted by it. -/
theorem array_sort (call : Caller) (mark : Mark) (items args : List Value) (s : Setting)
    (t : Meter) :
    (Value.arg args 0 = .undefined →
      Orders Value.InTextOrder items ∧
      ∃ mark' sorted, arrayMethod call mark items .sort args s t =
          .ok (.array mark' sorted) { t with made := t.made + 1 } ∧
        StablySorted Value.InTextOrder items sorted) ∧
    ((Value.arg args 0).isFunction = true →
      (∀ v w t' fault u, SortAsks call (Value.arg args 0) items s t v w t' →
        call (Value.arg args 0) [v, w] s t' = .error fault u →
          arrayMethod call mark items .sort args s t = .error fault u) ∧
      ((∀ v w t', SortAsks call (Value.arg args 0) items s t v w t' →
          ∃ x u, call (Value.arg args 0) [v, w] s t' = .ok x u) →
        ∃ mark' sorted u, arrayMethod call mark items .sort args s t =
            .ok (.array mark' sorted) u ∧
          sorted.Perm items ∧
          ∀ le : Value → Value → Prop, Orders le items →
            (∀ v w t' x u, SortAsks call (Value.arg args 0) items s t v w t' →
              call (Value.arg args 0) [v, w] s t' = .ok x u → (0.0 < x.toNumber ↔ ¬ le v w)) →
            StablySorted le items sorted)) := by
  constructor
  · exact fun hargs => ⟨Value.orders_inTextOrder items, run_sort_of_text hargs⟩
  · intro hf
    rw [arrayMethod_sort_of_function hf, ← Comparing.run_sort]
    generalize Value.arg args 0 = f
    constructor
    · intro v w t' fault u hasks hcall
      rw [run_bind, Comparing.run_eq_error_of_asks hasks (behindBy_eq_error hcall)]
    · intro hcalls
      obtain ⟨sorted, u, hrun⟩ : ∃ sorted u,
          (Comparing.sort items).run (behindBy call f) s t = .ok sorted u := by
        refine Comparing.exists_run_eq_ok fun v w t' hasks => ?_
        obtain ⟨x, u, hx⟩ := hcalls v w t' hasks
        refine ⟨decide (0.0 < x.toNumber), u, ?_⟩
        rw [behindBy, run_bind, hx]
        rfl
      have hfree : ((Comparing.sort items).run (behindBy call f) >>= freeArray) s t =
          .ok (.array { origin := .made u.made } sorted) { u with made := u.made + 1 } := by
        rw [run_bind, hrun]
        rfl
      refine ⟨_, sorted, _, hfree, ?_, fun le hle hanswers => ?_⟩
      · rw [Comparing.run_sort] at hrun
        exact perm_of_sort_items _ _ ⟨s, t, u, hrun⟩
      · classical
        have hsorted : sorted = (Comparing.sort items).answered le := by
          refine Comparing.eq_answered_of_run hrun fun v w t' hasks r u' hr => ?_
          obtain ⟨x, hx, rfl⟩ := exists_of_behindBy hr
          rw [decide_eq_true_iff]
          exact hanswers v w t' x u' hasks hx
        rw [hsorted]
        exact Comparing.stablySorted_answered_sort hle

/-- `(a, b) => a - b` -/
def byDifference : Value :=
  .func (.closure ["a", "b"] (.binary .sub (.name "a") (.name "b")) [])

theorem call_byDifference (v w : Value) (t : Meter) (hcalls : t.calls = 0) (hdepth : t.depth = 0) :
    callValue 1 byDifference [v, w] plainSetting t =
      .ok (.number (v.toNumber - w.toNumber)) { t with ticks := t.ticks + 4 } := by
  have h1 : ¬plainSetting.limits.maxDepth ≤ t.calls := by
    rw [hcalls]
    decide
  have h2 : ¬plainSetting.limits.nesting < t.depth + 1 := by
    rw [hdepth]
    decide
  have h3 : ¬plainSetting.limits.nesting < t.depth + 1 + 1 := by
    rw [hdepth]
    decide
  have hv (t : Meter) : readName (bindParams ["a", "b"] [v, w] []) "a" plainSetting t = .ok v t :=
    rfl
  have hw (t : Meter) : readName (bindParams ["a", "b"] [v, w] []) "b" plainSetting t = .ok w t :=
    rfl
  simp only [callValue, callOnce, byDifference, callFunc, eval, asValue, step, applyBinary,
    arithmetic, map_eq_pure_bind, run_bind, run_pure, run_tick_of_clock elapsed_plainSetting,
    run_calling, run_deeper, hv, hw, h1, h2, h3, if_false, Option.getD_some, Nat.add_sub_cancel]

/-- The difference of the first to the second value is not positive. -/
def DifferenceLe (v w : Value) : Prop :=
  ¬ 0.0 < v.toNumber - w.toNumber

instance : DecidableRel DifferenceLe :=
  fun v w => inferInstanceAs (Decidable ¬ 0.0 < v.toNumber - w.toNumber)

theorem orders_differenceLe : Orders DifferenceLe [.number 10, .number 9, .number 1] where
  total := by decide +kernel
  trans := by decide +kernel

/-- Ten comes before nine as a text, and behind it as a number. -/
theorem array_sort_by_difference :
    (∃ mark sorted, arrayMethod (callValue 1) { origin := .root "a" }
          [.number 10, .number 9, .number 1] .sort [] plainSetting {} =
        .ok (.array mark sorted) { made := 1 } ∧
      StablySorted Value.InTextOrder [.number 10, .number 9, .number 1] sorted) ∧
    ∃ mark sorted u, arrayMethod (callValue 1) { origin := .root "a" }
          [.number 10, .number 9, .number 1] .sort [byDifference] plainSetting {} =
        .ok (.array mark sorted) u ∧
      StablySorted DifferenceLe [.number 10, .number 9, .number 1] sorted := by
  refine ⟨((array_sort (callValue 1) _ _ [] _ {}).1 rfl).2, ?_⟩
  -- no call is open when two items are compared
  have hstep : ∀ v w t r u, t.calls = 0 ∧ t.depth = 0 →
      behindBy (callValue 1) byDifference v w plainSetting t = .ok r u →
        u.calls = 0 ∧ u.depth = 0 := by
    intro v w t r u ht hr
    obtain ⟨x, hx, -⟩ := exists_of_behindBy hr
    obtain ⟨-, rfl⟩ := EStateM.Result.ok.inj ((call_byDifference v w t ht.1 ht.2).symm.trans hx)
    exact ht
  have hcall {v w : Value} {t : Meter}
      (h : SortAsks (callValue 1) byDifference [.number 10, .number 9, .number 1] plainSetting {} v
        w t) : callValue 1 byDifference [v, w] plainSetting t =
          .ok (.number (v.toNumber - w.toNumber)) { t with ticks := t.ticks + 4 } := by
    obtain ⟨hcalls, hdepth⟩ := Comparing.asks_of_preserved hstep ⟨rfl, rfl⟩ h
    exact call_byDifference v w t hcalls hdepth
  obtain ⟨mark, sorted, u, hrun, -, hsorted⟩ := ((array_sort (callValue 1) { origin := .root "a" }
    [.number 10, .number 9, .number 1] [byDifference] plainSetting {}).2 rfl).2
      fun v w t h => ⟨_, _, hcall h⟩
  refine ⟨mark, sorted, u, hrun, hsorted _ orders_differenceLe ?_⟩
  intro v w t x u' h hx
  obtain ⟨rfl, -⟩ := EStateM.Result.ok.inj ((hcall h).symm.trans hx)
  exact not_not.symm

end Eval

end Workflow
