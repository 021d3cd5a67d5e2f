import Workflow.Proofs.Eval.Settling
import Workflow.Proofs.Eval.Shallow

/-! The results of evaluations that start at a given depth. They come at the same depth, so that a
bound which depends on it holds from one step to the next; and whatever functions of the language do
with their callbacks, they nest at most one collection more around what they are given and get
back. -/
namespace Workflow.Eval

/-- Started at the depth, the evaluation has no result without the property, and none at another
depth. -/
def AtDepth {α : Type} (s : Setting) (depth : Nat) (post : α → Prop) (m : EvalM α) : Prop :=
  ∀ t a t', t.depth = depth → m s t = .ok a t' → t'.depth = depth ∧ post a

/-- Results come at the depth where the evaluation starts. -/
def KeepsDepth {α : Type} (s : Setting) (m : EvalM α) : Prop :=
  ∀ depth, AtDepth s depth (fun _ => True) m

namespace AtDepth

variable {α β : Type} {s : Setting} {depth : Nat} {post : α → Prop} {post' : β → Prop}

theorem pure {a : α} (h : post a) : AtDepth s depth post (Pure.pure a) := by
  intro t b t' ht hb
  cases hb
  exact ⟨ht, h⟩

theorem fail {fault : Fault} : AtDepth s depth post (fail fault : EvalM α) :=
  fun _ _ _ _ h => nomatch h

theorem bind {m : EvalM α} {f : α → EvalM β} (hm : AtDepth s depth post m)
    (hf : ∀ a, post a → AtDepth s depth post' (f a)) : AtDepth s depth post' (m >>= f) := by
  intro t b t' ht h
  obtain ⟨a, t₁, ha, hb⟩ := exists_of_bind h
  obtain ⟨ht₁, hpost⟩ := hm t a t₁ ht ha
  exact hf a hpost t₁ b t' ht₁ hb

theorem mono {post₁ : α → Prop} {m : EvalM α} (hm : AtDepth s depth post m)
    (h : ∀ a, post a → post₁ a) : AtDepth s depth post₁ m :=
  fun t a t' ht ha => ⟨(hm t a t' ht ha).1, h a (hm t a t' ht ha).2⟩

theorem map {m : EvalM α} {g : α → β} (hm : AtDepth s depth post m)
    (h : ∀ a, post a → post' (g a)) : AtDepth s depth post' (g <$> m) := by
  rw [map_eq_pure_bind]
  exact hm.bind fun a ha => pure (h a ha)

/-- Steps that call nothing have the properties of all their results. -/
theorem free {m : EvalM α} (hf : CallFree m) (hm : Ensures s post m) : AtDepth s depth post m := by
  intro t a t' ht h
  have hends := hf.ends s t
  rw [h] at hends
  exact ⟨hends.trans ht, hm t a t' h⟩

theorem skip {m : EvalM α} {f : α → EvalM β} (hm : CallFree m)
    (hf : ∀ a, AtDepth s depth post' (f a)) : AtDepth s depth post' (m >>= f) :=
  (free hm (Ensures.any m)).bind fun a _ => hf a

/-- A body that is run is not too deep. -/
theorem deeper {cause : Nat → Excess} {m : EvalM α}
    (hm : depth < s.limits.nesting → AtDepth s (depth + 1) post m) :
    AtDepth s depth (fun a => depth < s.limits.nesting ∧ post a) (deeper cause m) := by
  intro t a t' ht h
  obtain ⟨hlt, t₁, ha, rfl⟩ := exists_of_deeper h
  rw [ht] at hlt
  obtain ⟨ht₁, hpost⟩ := hm hlt _ a t₁ (congrArg (· + 1) ht) ha
  refine ⟨?_, hlt, hpost⟩
  show t₁.depth - 1 = depth
  omega

theorem calling {m : EvalM α} (hm : AtDepth s depth post m) :
    AtDepth s depth post (calling m) := by
  intro t a t' ht h
  obtain ⟨-, t₁, ha, rfl⟩ := exists_of_calling h
  exact hm { t with calls := t.calls + 1 } a t₁ ht ha

end AtDepth

namespace KeepsDepth

variable {α : Type} {s : Setting}

theorem ensuring {depth : Nat} {post : α → Prop} {m : EvalM α} (hm : KeepsDepth s m)
    (he : Ensures s post m) : AtDepth s depth post m :=
  fun t a t' ht h => ⟨(hm depth t a t' ht h).1, he t a t' h⟩

/-- An evaluation keeps the depth if its calls do. -/
theorem of_calls {allowed : Value → List Value → Prop} {call : Caller}
    (hcall : ∀ f args, KeepsDepth s (call f args)) {m : Caller → EvalM α}
    (hm : CallsOnly allowed m) : KeepsDepth s (m call) := by
  induction hm with
  | free hm => exact fun _ => .free hm (Ensures.any _)
  | andThen _ _ ihm ihf =>
    intro depth t b t' ht h
    obtain ⟨a, t₁, ha, hb⟩ := exists_of_bind h
    exact ihf a ⟨call, s, t, t₁, ha⟩ depth t₁ b t' (ihm depth t a t₁ ht ha).1 hb
  | call _ => exact hcall _ _
  | deeper _ _ ih => exact fun depth => (AtDepth.deeper fun _ => ih _).mono fun _ _ => trivial
  | calling _ ih => exact fun depth => (ih depth).calling

end KeepsDepth

/-- Values can be called at the depth, by functions of the language that get back none that is
nested deeper than `n` levels if they give none. -/
structure CallsBack (s : Setting) (depth n : Nat) (call : Caller) : Prop where
  keeps : ∀ f args, KeepsDepth s (call f args)
  shallow : ∀ f args, Shallow n f → (∀ v ∈ args, Shallow n v) →
    AtDepth s depth (Shallow n) (call f args)

namespace AtDepth

variable {s : Setting} {depth n : Nat}

section Loops

variable {once : List Value → EvalM Value} {rest : Nat → List Value}
  (ho : ∀ args, (∀ v ∈ args, Shallow n v) → AtDepth s depth (Shallow n) (once args))
  (hr : ∀ i, ∀ v ∈ rest i, Shallow n v)
include ho hr

theorem map_from {done items : List Value} (hd : ∀ v ∈ done, Shallow n v)
    (hi : ∀ v ∈ items, Shallow n v) (i : Nat) :
    AtDepth s depth (fun results => ∀ v ∈ results, Shallow n v)
      (mapFrom once rest i done items) := by
  induction items generalizing done i with
  | nil => exact pure fun v hv => hd v (List.mem_reverse.1 hv)
  | cons v items ih =>
    obtain ⟨hv, hi⟩ := List.forall_mem_cons.1 hi
    refine (ho _ (List.forall_mem_cons.2 ⟨hv, hr i⟩)).bind fun w hw => ?_
    exact ih (List.forall_mem_cons.2 ⟨hw, hd⟩) hi _

theorem reduce_from {items : List Value} (hi : ∀ v ∈ items, Shallow n v) (i : Nat) {sum : Value}
    (hs : Shallow n sum) : AtDepth s depth (Shallow n) (reduceFrom once rest i sum items) := by
  induction items generalizing i sum with
  | nil => exact pure hs
  | cons v items ih =>
    obtain ⟨hv, hi⟩ := List.forall_mem_cons.1 hi
    have ha : ∀ w ∈ sum :: v :: rest i, Shallow n w :=
      List.forall_mem_cons.2 ⟨hs, List.forall_mem_cons.2 ⟨hv, hr i⟩⟩
    exact (ho _ ha).bind fun _ hw => ih hi _ hw

end Loops

theorem callback {args : List Value} (ha : ∀ v ∈ args, Shallow n v) (i : Nat) (role : String) :
    AtDepth s depth (Shallow n) (callback args i role) := by
  refine free (.callback _ _ _) (.of_yields fun f hf => ?_)
  rw [yields_callback hf]
  exact Shallow.arg ha i

theorem new_array {items : List Value} (h : ∀ v ∈ items, Shallow n v) :
    AtDepth s depth (Shallow (n + 1)) (newArray items) :=
  free (.newArray _) (Shallow.new_array h)

theorem free_array {items : List Value} (h : ∀ v ∈ items, Shallow n v) :
    AtDepth s depth (Shallow (n + 1)) (freeArray items) :=
  free (.freeArray _) (Shallow.free_array h)

theorem read_member {v : Value} (hv : Shallow n v) (key : String) :
    AtDepth s depth (Shallow n) (readMember v key) := by
  refine free (.readMember v key) ?_
  unfold readMember
  split
  · exact .fail
  · exact .pure (hv.member key)

theorem apply_binary (op : BinaryOp) (v w : Value) :
    AtDepth s depth (Shallow n) (applyBinary op v w) := by
  refine free (.applyBinary op v w) ?_
  cases op
  case add =>
    show Ensures s _ (add v w)
    unfold add
    split
    · exact Shallow.new_string _
    · exact Shallow.new_string _
    · exact .pure (Nat.zero_le n)
  all_goals exact .pure (Nat.zero_le n)

theorem construct (callee : Value) (args : List Value) :
    AtDepth s depth (Shallow n) (construct callee args) := by
  refine free (.construct callee args) ?_
  unfold Eval.construct
  split
  · exact .after fun _ => .after fun _ => .pure (Nat.zero_le n)
  · exact .fail

section Callbacks

variable {call : Caller} (h : CallsBack s depth n call)
include h

theorem collect {args : List Value} (ha : ∀ v ∈ args, Shallow n v) :
    AtDepth s depth (Shallow (n + 1)) (collect call args) := by
  refine (free (.itemsOf _) (Shallow.items_of (Shallow.arg ha 0))).bind fun items hi => ?_
  refine skip (.reserveItems _) fun _ => ?_
  split
  · exact free_array hi
  · refine (callback ha 1 _).bind fun f hf => ?_
    have hrest (i : Nat) : ∀ v ∈ [Value.ofNat i], Shallow n v :=
      List.forall_mem_singleton.2 (Nat.zero_le n)
    refine (map_from (h.shallow f · hf) hrest (List.forall_mem_nil _) hi 0).bind fun _ hm => ?_
    exact free_array hm

theorem array_method {mark : Mark} {items : List Value} (hself : Shallow n (.array mark items))
    (method : ArrayMethod) {args : List Value} (ha : ∀ v ∈ args, Shallow n v) :
    AtDepth s depth (Shallow (n + 1)) (arrayMethod call mark items method args) := by
  have hn := Nat.le_succ n
  have hrest (i : Nat) : ∀ v ∈ [Value.ofNat i, .array mark items], Shallow n v :=
    List.forall_mem_cons.2 ⟨Nat.zero_le n, List.forall_mem_singleton.2 hself⟩
  have hnil : ∀ v ∈ ([] : List Value), Shallow n v := List.forall_mem_nil _
  cases hm : method.keepsResults with
  -- what callbacks return is not in the result, but they have to come back at the depth
  | false =>
    have hkeeps := KeepsDepth.of_calls h.keeps (calls_only_array_method mark items method args)
    exact hkeeps.ensuring (Shallow.array_method call hself hm ha)
  | true =>
    cases method
    case map =>
      refine (callback ha 0 _).bind fun f hf => ?_
      exact (map_from (h.shallow f · hf) hrest hnil hself.items 0).bind fun _ hm => new_array hm
    case flatMap =>
      refine (callback ha 0 _).bind fun f hf => ?_
      refine (map_from (h.shallow f · hf) hrest hnil hself.items 0).bind fun _ hm => ?_
      exact new_array fun v hv => Shallow.flatten_onto 1 hnil hm v (List.mem_reverse.1 hv)
    case reduce =>
      refine (callback ha 0 _).bind fun f hf => ?_
      split
      -- with a start, and without one
      · rename_i start hstart
        have hsum := ha start (List.mem_of_getElem? hstart)
        exact (reduce_from (h.shallow f · hf) hrest hself.items 0 hsum).mono fun v hv =>
          hv.deeper hn
      · obtain ⟨hv, hi⟩ := List.forall_mem_cons.1 hself.items
        exact (reduce_from (h.shallow f · hf) hrest hi 1 hv).mono fun v hv => hv.deeper hn
      · exact fail
    all_goals cases hm

end Callbacks

variable {call : Caller}

/-- Functions of the language nest at most one collection more, unless they read JSON. The entries of
a text are arrays in an array, which is why there has to be room for one level. -/
theorem call_func (h : CallsBack s depth (n + 1) call)
    (hroots : ∀ v, named? s.roots "$node" = some v → Shallow (n + 1) v) {f : Func}
    (hf : Shallow (n + 1) (.func f)) (hclosure : ∀ params body env, f ≠ .closure params body env)
    (hjson : f ≠ .native .jsonParse) {args : List Value} (ha : ∀ v ∈ args, Shallow (n + 1) v) :
    AtDepth s depth (Shallow (n + 2)) (callFunc call f args) := by
  cases f with
  | native f =>
    by_cases hfrom : f = .arrayFrom
    · subst hfrom
      exact collect h ha
    · have hnot : f ≠ .jsonParse := fun he => hjson (congrArg Func.native he)
      exact free (.native hfrom call args) (Shallow.native hfrom hnot hroots ha)
  | stringMethod text method =>
    have hkeeps := KeepsDepth.of_calls h.keeps (calls_only_string_method text method args)
    exact hkeeps.ensuring (Shallow.string_method call text method args)
  | arrayMethod mark items method => exact array_method h hf method ha
  | numberMethod x method =>
    exact free (.numberMethod x method args) (Shallow.number_method x method args)
  | boolMethod b method =>
    cases method
    all_goals exact pure (Nat.zero_le _)
  | dateMethod t method =>
    refine pure ?_
    cases method
    all_goals exact Nat.zero_le _
  | momentMethod m method =>
    exact free (.momentMethod m method args) (Shallow.moment_method m method args)
  | closure params body env => exact absurd rfl (hclosure params body env)

/-- So do the conversions. -/
theorem call_once (h : CallsBack s depth (n + 1) call)
    (hroots : ∀ v, named? s.roots "$node" = some v → Shallow (n + 1) v) {callee : Value}
    (hv : Shallow (n + 1) callee)
    (hclosure : ∀ params body env, callee ≠ .func (.closure params body env))
    (hjson : callee ≠ .func (.native .jsonParse)) {args : List Value}
    (ha : ∀ v ∈ args, Shallow (n + 1) v) :
    AtDepth s depth (Shallow (n + 2)) (callOnce call callee args) := by
  refine skip .tick fun _ => ?_
  split
  · rename_i f
    exact call_func h hroots hv (fun params body env he => hclosure params body env (he ▸ rfl))
      (fun he => hjson (he ▸ rfl)) ha
  · rename_i space
    refine free (.space space args) ?_
    split
    · exact Shallow.convert ha
    · exact .fail
  · exact fail

end AtDepth

end Workflow.Eval
