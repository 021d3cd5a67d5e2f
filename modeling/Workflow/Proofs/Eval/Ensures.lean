import Workflow.Eval.Run
import Workflow.Proofs.Eval.Fitting
import Workflow.Proofs.Eval.Meter
import Workflow.Proofs.Eval.Yields

/-! What holds of all results of an evaluation in a setting, and what is known behind the checks
against the limits. -/
namespace Workflow.Eval

/-- Whatever it starts from, the evaluation has no result without the property. -/
def Ensures {α : Type} (s : Setting) (post : α → Prop) (m : EvalM α) : Prop :=
  ∀ t a t', m s t = .ok a t' → post a

namespace Ensures

variable {α β : Type} {s : Setting} {post : α → Prop} {post' : β → Prop}

theorem pure {a : α} (h : post a) : Ensures s post (Pure.pure a) := by
  intro t b t' hb
  cases hb
  exact h

theorem bind {m : EvalM α} {f : α → EvalM β} (hm : Ensures s post m)
    (hf : ∀ a, post a → Ensures s post' (f a)) : Ensures s post' (m >>= f) := by
  intro t b t' h
  obtain ⟨a, t₁, ha, hb⟩ := exists_of_bind h
  exact hf a (hm t a t₁ ha) t₁ b t' hb

/-- Every result is some result. -/
theorem any (m : EvalM α) : Ensures s (fun _ => True) m :=
  fun _ _ _ _ => trivial

theorem after {m : EvalM α} {f : α → EvalM β} (hf : ∀ a, Ensures s post' (f a)) :
    Ensures s post' (m >>= f) :=
  (any m).bind fun a _ => hf a

theorem mono {post₁ : α → Prop} {m : EvalM α} (hm : Ensures s post m) (h : ∀ a, post a → post₁ a) :
    Ensures s post₁ m :=
  fun t a t' ha => h a (hm t a t' ha)

theorem map {m : EvalM α} {g : α → β} (hm : Ensures s post m) (h : ∀ a, post a → post' (g a)) :
    Ensures s post' (g <$> m) := by
  rw [map_eq_pure_bind]
  exact hm.bind fun a ha => pure (h a ha)

theorem fail {fault : Fault} : Ensures s post (fail fault : EvalM α) :=
  fun _ _ _ h => nomatch h

theorem look {f : Setting → EvalM α} (hf : Ensures s post (f s)) : Ensures s post (read >>= f) :=
  hf

theorem orOutOfRange {cause : Range} {o : Option α} (h : ∀ a, o = some a → post a) :
    Ensures s post (orOutOfRange cause o) := by
  cases o with
  | none => exact fail
  | some a => exact pure (h a rfl)

theorem and {post₁ : α → Prop} {m : EvalM α} (hm : Ensures s post m) (hm₁ : Ensures s post₁ m) :
    Ensures s (fun a => post a ∧ post₁ a) m :=
  fun t a t' h => ⟨hm t a t' h, hm₁ t a t' h⟩

/-- What an evaluation yields in general. -/
theorem of_yields {m : EvalM α} (h : ∀ a, Yields m a → post a) : Ensures s post m :=
  fun t a t' ha => h a ⟨s, t, t', ha⟩

theorem check_length (length : Nat) :
    Ensures s (fun _ => length ≤ s.limits.maxCollectionLength) (checkLength length) := by
  intro t a t' h
  rw [run_check_length] at h
  split at h
  · cases h
  · split at h
    · cases h
    · rename_i hle
      exact Nat.le_of_not_lt hle

theorem check_bytes (bytes : Nat) :
    Ensures s (fun _ => bytes ≤ s.limits.maxStringLength) (checkBytes bytes) := by
  intro t a t' h
  rw [run_check_bytes] at h
  split at h
  · cases h
  · rename_i hle
    exact Nat.le_of_not_lt hle

theorem reserve_items (length : Nat) :
    Ensures s (fun _ => length ≤ s.limits.maxCollectionLength) (reserveItems length) :=
  (check_length length).bind fun _ h => (any _).mono fun _ _ => h

theorem reserve_bytes (bytes : Nat) :
    Ensures s (fun _ => bytes ≤ s.limits.maxStringLength) (reserveBytes bytes) :=
  (check_bytes bytes).bind fun _ h => (any _).mono fun _ _ => h

theorem deeper {cause : Nat → Excess} {m : EvalM α} (hm : Ensures s post m) :
    Ensures s post (deeper cause m) := by
  intro t a t' h
  obtain ⟨-, t₁, ha, -⟩ := exists_of_deeper h
  exact hm _ a t₁ ha

theorem calling {m : EvalM α} (hm : Ensures s post m) : Ensures s post (calling m) := by
  intro t a t' h
  obtain ⟨-, t₁, ha, -⟩ := exists_of_calling h
  exact hm _ a t₁ ha

end Ensures

/-- There are as many values as expressions. -/
theorem length_of_yields_items {call : Caller} {env : Env} {items : List Expr} {done : List Value} :
    ∀ values, Yields (stepItems call env done items) values →
      values.length = done.length + items.length := by
  induction items generalizing done with
  | nil =>
    intro values h
    rw [eq_of_yields_pure h]
    exact List.length_reverse
  | cons e rest ih =>
    intro values h
    obtain ⟨v, -, h⟩ := yields_bind h
    rw [ih values h, List.length_cons, List.length_cons]
    omega

theorem length_of_yields_entries {call : Caller} {env : Env} {entries : List (String × Expr)}
    {done : List (String × Value)} : ∀ values, Yields (stepEntries call env done entries) values →
      values.length = done.length + entries.length := by
  induction entries generalizing done with
  | nil =>
    intro values h
    rw [eq_of_yields_pure h]
    exact List.length_reverse
  | cons e rest ih =>
    intro values h
    obtain ⟨v, -, h⟩ := yields_bind h
    rw [ih values h, List.length_cons, List.length_cons]
    omega

/-- The value fits the limits of the setting. -/
abbrev Fits (s : Setting) (v : Value) : Prop :=
  v.fits s.limits = true

/-- The value of a chain fits, if it has one. -/
abbrev Link.Fits (s : Setting) (link : Link) : Prop :=
  ∀ v ∈ link, v.fits s.limits = true

namespace Ensures

variable {s : Setting}

theorem some_link {m : EvalM Value} (hm : Ensures s (Fits s) m) :
    Ensures s (Link.Fits s) (some <$> m) :=
  hm.map fun _ hv _ hw => Option.some.inj hw ▸ hv

theorem as_value {m : EvalM Link} (hm : Ensures s (Link.Fits s) m) :
    Ensures s (Fits s) (asValue m) := by
  refine deeper (hm.bind fun link hl => pure ?_)
  cases link with
  | none => rfl
  | some v => exact hl v rfl

theorem as_link (isChain : Bool) {m : EvalM Link} (hm : Ensures s (Link.Fits s) m) :
    Ensures s (Link.Fits s) (asLink isChain m) := by
  cases isChain with
  | true =>
    show Ensures s _ (Eval.deeper (fun _ => .chain) m)
    exact deeper hm
  | false => exact hm.as_value.some_link

theorem new_string (text : String) : Ensures s (Fits s) (newString text) :=
  (reserve_bytes _).bind fun _ h => pure (Limits.allowsText_iff.2 h)

theorem free_array {items : List Value} (hlen : items.length ≤ s.limits.maxCollectionLength)
    (hi : ∀ v ∈ items, Fits s v) : Ensures s (Fits s) (freeArray items) :=
  after fun _ => pure (fits_array_iff.2 ⟨hlen, hi⟩)

theorem new_array {items : List Value} (hi : ∀ v ∈ items, Fits s v) :
    Ensures s (Fits s) (newArray items) :=
  (reserve_items _).bind fun _ hlen => free_array hlen hi

theorem free_object {entries : List (String × Value)}
    (hlen : entries.length ≤ s.limits.maxCollectionLength)
    (he : ∀ e ∈ entries, EntryFits s.limits e) : Ensures s (Fits s) (freeObject entries) :=
  after fun _ => pure (fits_object_iff.2 ⟨Nat.le_trans (Fields.length_ofList_le _) hlen,
    fun e h => he e (Fields.mem_of_mem_ofList h)⟩)

end Ensures

end Workflow.Eval
