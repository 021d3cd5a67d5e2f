import Workflow.Proofs.Eval.PayingCalls
import Workflow.Proofs.Expr.Taken

/-! The values of expressions are paid for by what their evaluation charges and what they take over,
if each call of a function that charges too little happens to be paid for. -/
namespace Workflow.Eval

/-- Calls a value as `callValue` does, but does `stop` behind a call of a function that charges too
little if its result is larger than what was charged during the call and what the call was given. -/
def callPaid (n : Nat) (stop : EvalM Value) : Caller := fun callee args => do
  let before := (← get).allocated
  let v ← callValue callFuel callee args
  let after := (← get).allocated
  if callee.isUncharged && after + (callee.size n + sizes n args) < v.size n + before then stop
  else return v

/-- The value of an expression without variables, with a look at what its own calls charge. Calls
inside of these calls are not looked at. -/
def runPaid (n : Nat) (stop : EvalM Value) (e : Expr) : EvalM Value :=
  eval (callPaid n stop) [] e

/-- The size of the value of a chain, if it has one. -/
def Link.size (n : Nat) (link : Link) : Nat :=
  (link.map (Value.size n)).getD 0

namespace Pays

variable {s : Setting} {n credit : Nat}

theorem some_link {m : EvalM Value} (hm : Pays s (Value.size n) credit m) :
    Pays s (Link.size n) credit (some <$> m) :=
  hm.map fun _ => Nat.le_refl _

theorem as_value {m : EvalM Link} (hm : Pays s (Link.size n) credit m) :
    Pays s (Value.size n) credit (asValue m) := by
  refine deeper (bind 0 hm fun link _ => pure ?_)
  cases link with
  | none => exact Nat.le_refl _
  | some v => exact Nat.le_refl _

theorem as_link (isChain : Bool) {m : EvalM Link} (hm : Pays s (Link.size n) credit m) :
    Pays s (Link.size n) credit (asLink isChain m) := by
  cases isChain with
  | true =>
    show Pays s _ _ (Eval.deeper (fun _ => .chain) m)
    exact deeper hm
  | false => exact hm.as_value.some_link

/-- What comes second is paid for by the first result, or takes its place. -/
theorem bind_or {α β : Type} {size : α → Nat} {size' : β → Nat} {other : Nat} {m : EvalM α}
    {f : α → EvalM β} (ha : Accrues s m) (hm : Pays s size credit m)
    (hf : ∀ a, Pays s size' (size a) (f a) ∨ Pays s size' other (f a)) :
    Pays s size' (max credit other) (m >>= f) := by
  intro t b t' ht h
  obtain ⟨a, t₁, hfirst, hlast⟩ := exists_of_bind h
  obtain ⟨hpaid, ht₁⟩ := hm t a t₁ ht hfirst
  have haccrued := allocated_le ha ht hfirst
  rcases hf a with hf | hf
  -- a value that is dropped was charged for all the same
  · obtain ⟨hsecond, ht'⟩ := hf t₁ b t' ht₁ hlast
    exact ⟨by omega, ht'⟩
  · obtain ⟨hsecond, ht'⟩ := hf t₁ b t' ht₁ hlast
    exact ⟨by omega, ht'⟩

theorem apply_binary (hs : s.limits.maxTotalElements < Number.maxSize) (op : BinaryOp)
    (v w : Value) : Pays s (Value.size n) 0 (applyBinary op v w) := by
  cases op
  case add =>
    show Pays s _ _ (add v w)
    unfold add
    split
    · exact new_string hs _
    · exact new_string hs _
    · exact pure (Nat.le_refl _)
  all_goals exact pure (Nat.le_refl _)

theorem read_member (v : Value) (key : String) :
    Pays s (Value.size n) (v.size n) (readMember v key) := by
  unfold readMember
  split
  · exact fail
  · exact pure (size_member_le v key)

end Pays

/-- Calls are paid for by what they are given, and names by what a scale counts for them. -/
structure Provides (s : Setting) (n : Nat) (w : Scale) (call : Caller) : Prop where
  budget : s.limits.maxTotalElements < Number.maxSize
  accrues : ∀ f args, Accrues s (call f args)
  calls : ∀ f args, Pays s (Value.size n) (f.size n + sizes n args) (call f args)
  names : ∀ x v, Scale.strange.name x = 0 → lookup? s [] x = some v → v.size n ≤ w.name x

namespace Provides

variable {s : Setting} {n : Nat} {w : Scale} {call : Caller}

theorem value_accrues (h : Provides s n w call) (e : Expr) :
    Accrues s (asValue (step call [] e)) :=
  (calls_only_eval [] e).accrues h.budget h.accrues

mutual

theorem step (h : Provides s n w call) : ∀ e : Expr, w.Counts e.texts → e.taken .strange = 0 →
    Pays s (Link.size n) (e.taken w) (step call [] e)
  | .literal (.string text), ht, _ => .pure (ht (.literal text) List.mem_cons_self)
  | .literal (.number _), _, _ | .literal (.bool _), _, _ | .literal .null, _, _
  | .literal .undefined, _, _ => .pure (Nat.le_refl _)
  | .template fragments, _, _ => by
    simp only [Eval.step]
    refine .after ((calls_only_fragments [] "" fragments).accrues h.budget h.accrues) fun text => ?_
    exact (Pays.new_string h.budget text).some_link
  | .name x, _, he => by
    refine Pays.some_link (.look ?_)
    cases hv : lookup? s [] x with
    | none => exact .fail
    | some v => exact .pure (h.names x v he hv)
  | .array items, ht, he => by
    simp only [Eval.step]
    -- the charge pays for the items themselves, their values for what is inside
    refine (Pays.bind (Expr.itemsTaken w items) (.reserve_items h.budget items.length)
      fun _ _ => ?_).mono (Nat.le_of_eq (Nat.zero_add _))
    rw [Nat.add_comm]
    refine .bind items.length (h.step_items items [] ht he) fun values hv => ?_
    refine (Pays.free_array ?_).some_link
    have hlen := length_of_yields_items values hv
    rw [List.length_nil] at hlen
    omega
  | .object entries, ht, he => by
    simp only [Eval.step]
    refine (Pays.bind (Expr.entriesTaken w entries) (.reserve_items h.budget entries.length)
      fun _ _ => ?_).mono (Nat.le_of_eq (Nat.zero_add _))
    rw [Nat.add_comm]
    refine .bind entries.length (h.step_entries entries [] ht he) fun values hv => ?_
    refine (Pays.free_object ?_).some_link
    have hlen := length_of_yields_entries values hv
    rw [List.length_nil] at hlen
    omega
  | .member e _ _, ht, he => by
    simp only [Eval.step]
    refine .bind 0 (.as_link _ (h.step e ht he)) fun link _ => ?_
    split
    · split
      · exact .pure (Nat.zero_le _)
      · exact (Pays.read_member _ _).some_link
    · exact .pure (Nat.zero_le _)
  | .index e key _, ht, he => by
    obtain ⟨hbase, -⟩ := Scale.counts_append.1 ht
    simp only [Eval.step]
    refine .bind 0 (.as_link _ (h.step e hbase he)) fun link _ => ?_
    split
    · split
      · exact .pure (Nat.zero_le _)
      · exact .after (h.value_accrues key) fun _ => (Pays.read_member _ _).some_link
    · exact .pure (Nat.zero_le _)
  | .call e args _, ht, he => by
    obtain ⟨hcallee, hargs⟩ := Scale.counts_append.1 ht
    obtain ⟨he, heargs⟩ := Nat.add_eq_zero_iff.1 he
    simp only [Eval.step]
    refine .bind (Expr.itemsTaken w args) (.as_link _ (h.step e hcallee he)) fun link _ => ?_
    split
    · rename_i callee _
      split
      · exact .pure (Nat.zero_le _)
      · rw [Nat.add_comm]
        refine .bind (callee.size n) (h.step_items args [] hargs heargs) fun values _ => ?_
        rw [Nat.add_comm]
        exact (h.calls callee values).some_link
    · exact .pure (Nat.zero_le _)
  | .construct e args, _, he => nomatch he
  | .unary .typeOf e, _, he => nomatch he
  | .unary .not e, _, _ | .unary .neg e, _, _ | .unary .plus e, _, _ => by
    simp only [Eval.step]
    exact .after (h.value_accrues e) fun v => .pure (Nat.le_refl _)
  | .binary op left right, _, _ => by
    simp only [Eval.step]
    refine .after (h.value_accrues left) fun v => .after (h.value_accrues right) fun w => ?_
    exact (Pays.apply_binary h.budget op v w).some_link
  | .logical op left right, ht, he => by
    obtain ⟨hleft, hright⟩ := Scale.counts_append.1 ht
    obtain ⟨heleft, heright⟩ := Nat.max_eq_zero_iff.1 he
    simp only [Eval.step]
    refine .bind_or (h.value_accrues left) (.as_value (h.step left hleft heleft)) fun v => ?_
    split
    · exact Or.inl (.pure (Nat.le_refl _))
    · exact Or.inr (Pays.as_value (h.step right hright heright)).some_link
  | .conditional test consequent alternate, ht, he => by
    obtain ⟨-, ht⟩ := Scale.counts_append.1 ht
    obtain ⟨hconsequent, halternate⟩ := Scale.counts_append.1 ht
    obtain ⟨heconsequent, healternate⟩ := Nat.max_eq_zero_iff.1 he
    simp only [Eval.step]
    refine .after (h.value_accrues test) fun v => ?_
    split
    · have hpays := (Pays.as_value (h.step consequent hconsequent heconsequent)).some_link
      exact hpays.mono (Nat.le_max_left _ _)
    · have hpays := (Pays.as_value (h.step alternate halternate healternate)).some_link
      exact hpays.mono (Nat.le_max_right _ _)
  | .arrow params body, _, _ => .pure (Nat.le_refl _)
termination_by structural e => e

theorem step_items (h : Provides s n w call) : ∀ (items : List Expr) (done : List Value),
    w.Counts (Expr.itemTexts items) → Expr.itemsTaken .strange items = 0 →
      Pays s (sizes n) (Expr.itemsTaken w items + sizes n done) (stepItems call [] done items)
  | [], done, _, _ => .pure (by
    rw [sizes_perm (List.reverse_perm done)]
    exact Nat.le_add_left _ _)
  | e :: rest, done, ht, he => by
    obtain ⟨hfirst, hrest⟩ := Scale.counts_append.1 ht
    obtain ⟨hefirst, herest⟩ := Nat.add_eq_zero_iff.1 he
    simp only [stepItems]
    rw [Expr.itemsTaken, Nat.add_assoc]
    refine .bind _ (.as_value (h.step e hfirst hefirst)) fun v _ => ?_
    refine (h.step_items rest (v :: done) hrest herest).mono ?_
    rw [sizes]
    omega
termination_by structural items => items

theorem step_entries (h : Provides s n w call) :
    ∀ (entries : List (String × Expr)) (done : List (String × Value)),
    w.Counts (Expr.entryTexts entries) → Expr.entriesTaken .strange entries = 0 →
      Pays s (entrySizes n) (Expr.entriesTaken w entries + entrySizes n done)
        (stepEntries call [] done entries)
  | [], done, _, _ => .pure (by
    rw [entrySizes_perm (List.reverse_perm done)]
    exact Nat.le_add_left _ _)
  | (key, e) :: rest, done, ht, he => by
    obtain ⟨hkey, ht⟩ := List.forall_mem_cons.1 ht
    obtain ⟨hfirst, hrest⟩ := Scale.counts_append.1 ht
    obtain ⟨he, herest⟩ := Nat.add_eq_zero_iff.1 he
    obtain ⟨-, hefirst⟩ := Nat.add_eq_zero_iff.1 he
    simp only [stepEntries]
    have hcredit : Expr.entriesTaken w ((key, e) :: rest) + entrySizes n done =
        e.taken w + (w.text (.key key) + Expr.entriesTaken w rest + entrySizes n done) := by
      rw [Expr.entriesTaken]
      omega
    rw [hcredit]
    refine .bind _ (.as_value (h.step e hfirst hefirst)) fun v _ => ?_
    refine (h.step_entries rest ((key, v) :: done) hrest herest).mono ?_
    have hbytes : key.utf8ByteSize ≤ w.text (.key key) := hkey
    rw [entrySizes]
    omega
termination_by structural entries => entries

end

end Provides

section

variable {s : Setting} {n : Nat} (hs : s.limits.maxTotalElements < Number.maxSize)
include hs

theorem call_paid_accrues {stop : EvalM Value} (hstop : Accrues s stop) (callee : Value)
    (args : List Value) : Accrues s (callPaid n stop callee args) := by
  refine .after (.of_same fun _ _ _ h => by cases h; rfl) fun before => ?_
  refine .after (call_value_accrues hs callFuel callee args) fun v => ?_
  refine .after (.of_same fun _ _ _ h => by cases h; rfl) fun after => ?_
  dsimp only
  split
  · exact hstop
  · exact .pure (Nat.le_refl _)

/-- Behind the call of a function that charges too little its result was looked at. -/
theorem call_paid_pays (hn : ∀ v, named? s.roots "$node" = some v → v.size n ≤ n)
    {stop : EvalM Value} (hstop : Pays s (Value.size n) 0 stop) (callee : Value)
    (args : List Value) :
    Pays s (Value.size n) (callee.size n + sizes n args) (callPaid n stop callee args) := by
  intro t w t' ht h
  unfold callPaid at h
  simp only [run_bind, run_get] at h
  split at h
  · rename_i v t₁ hcall
    have haccrues := call_value_accrues hs callFuel callee args
    have haccrued := haccrues.allocated_le ht hcall
    obtain ⟨-, ht₁⟩ := haccrues t v t₁ ht hcall
    rw [run_ite] at h
    split at h
    · obtain ⟨hpaid, ht'⟩ := hstop t₁ w t' ht₁ h
      exact ⟨by omega, ht'⟩
    · rename_i hlook
      cases h
      -- the other functions pay by themselves
      cases hu : callee.isUncharged with
      | false => exact call_value_pays hs hn callFuel hu args t _ _ ht hcall
      | true =>
        rw [hu, Bool.true_and, decide_eq_true_iff] at hlook
        exact ⟨by omega, ht₁⟩
  · cases h

/-- The value of an expression is no larger than what was charged and what it takes over. -/
theorem run_paid_pays {w : Scale} (hn : ∀ v, named? s.roots "$node" = some v → v.size n ≤ n)
    (hw : ∀ x v, Scale.strange.name x = 0 → lookup? s [] x = some v → v.size n ≤ w.name x)
    {stop : EvalM Value} (hstop : Pays s (Value.size n) 0 stop) {e : Expr}
    (ht : w.Counts e.texts) (he : e.taken .strange = 0) :
    Pays s (Value.size n) (e.taken w) (runPaid n stop e) := by
  have hprovides : Provides s n w (callPaid n stop) :=
    ⟨hs, call_paid_accrues hs hstop.accrues, call_paid_pays hs hn hstop, hw⟩
  exact .as_value (hprovides.step e ht he)

end

end Workflow.Eval
