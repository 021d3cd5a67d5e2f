import Workflow.Eval.Run
import Workflow.Expr.Parser
import Workflow.Proofs.Eval.Yields
import Workflow.Proofs.Number.Order

/-! The equalities of values. Without conversion equality is an equivalence among the values that
are equal to themselves, which are all but functions and what is no number; with conversion it is
still symmetric. -/
namespace Workflow.Eval

/-- What values other than numbers are told apart by. -/
inductive Identity where
  | undefined
  | null
  | bool (b : Bool)
  | string (s : String)
  | array (mark : Mark)
  | object (mark : Mark)
  | date (t : Time.Timestamp)
  | moment (utc : Time.Timestamp)
  | space (s : Namespace)

namespace Value

/-- Numbers have an equality of their own, and functions are told apart by nothing. -/
def identity? : Value → Option Identity
  | .undefined => some .undefined
  | .null => some .null
  | .bool b => some (.bool b)
  | .number _ => none
  | .string s => some (.string s)
  | .array mark _ => some (.array mark)
  | .object mark _ => some (.object mark)
  | .date t => some (.date t)
  | .moment m => some (.moment m.utc)
  | .space s => some (.space s)
  | .func _ => none

/-- No number, as a value. -/
def IsNaN (v : Value) : Prop :=
  ∃ x, v = .number x ∧ x.isNaN = true

/-- A function of any kind; the global objects are none. -/
def IsFunc (v : Value) : Prop :=
  ∃ f, v = .func f

theorem strictEq_iff (v w : Value) : v.strictEq w = true ↔
    (∃ x y, v = .number x ∧ w = .number y ∧ (x == y) = true) ∨
      ∃ i, v.identity? = some i ∧ w.identity? = some i := by
  cases v with
  | number x => cases w <;> simp [strictEq, identity?]
  | func f => cases w <;> simp [strictEq, identity?]
  | _ => cases w <;> simp [strictEq, identity?] <;> exact eq_comm

theorem strictEq_comm (v w : Value) : v.strictEq w = w.strictEq v := by
  have hsymm (u u' : Value) (h : u.strictEq u' = true) : u'.strictEq u = true := by
    rw [strictEq_iff] at *
    rcases h with ⟨x, y, hx, hy, hxy⟩ | ⟨i, hi, hi'⟩
    · exact Or.inl ⟨y, x, hy, hx, BEq.symm hxy⟩
    · exact Or.inr ⟨i, hi', hi⟩
  exact Bool.eq_iff_iff.2 ⟨hsymm v w, hsymm w v⟩

theorem strictEq_trans {u v w : Value} (huv : u.strictEq v = true) (hvw : v.strictEq w = true) :
    u.strictEq w = true := by
  rw [strictEq_iff] at *
  rcases huv with ⟨x, y, hx, hy, hxy⟩ | ⟨i, hi, hi'⟩
  · rcases hvw with ⟨y', z, hy', hz, hyz⟩ | ⟨i, hi, -⟩
    · obtain rfl := Value.number.inj (hy.symm.trans hy')
      exact Or.inl ⟨x, z, hx, hz, BEq.trans hxy hyz⟩
    · rw [hy] at hi
      cases hi
  · rcases hvw with ⟨y, z, hy, -, -⟩ | ⟨j, hj, hj'⟩
    · rw [hy] at hi'
      cases hi'
    · obtain rfl := Option.some.inj (hi'.symm.trans hj)
      exact Or.inr ⟨i, hi, hj'⟩

theorem strictEq_self_iff (v : Value) : v.strictEq v = true ↔ ¬ v.IsNaN ∧ ¬ v.IsFunc := by
  rw [strictEq_iff]
  cases v with
  | number x => simp [identity?, IsNaN, IsFunc]
  | func f => simp [identity?, IsNaN, IsFunc]
  | _ => simp [identity?, IsNaN, IsFunc]

theorem atomEq_comm (v w : Value) : atomEq v w = atomEq w v := by
  cases v with
  | number x => cases w <;> simp only [atomEq, strictEq_comm, BEq.comm]
  | string s => cases w <;> simp only [atomEq, strictEq_comm, BEq.comm]
  | _ => cases w <;> simp only [atomEq, strictEq_comm]

/-- Texts and numbers are no collections. -/
theorem isAtom_of_isCollection {v : Value} (h : v.isCollection = true) : v.isAtom = false := by
  cases v with
  | array mark items => rfl
  | object mark entries => rfl
  | _ => cases h

theorem looseEq_comm (v w : Value) : v.looseEq w = w.looseEq v := by
  unfold looseEq
  rw [Bool.or_comm w.isNullish, Bool.and_comm w.isNullish, Bool.or_comm w.isBool,
    BEq.comm (a := w.toNumber), Bool.and_comm w.isCollection, Bool.and_comm w.isAtom,
    atomEq_comm w v, atomEq_comm w (.string v.display), atomEq_comm (.string w.display) v]
  refine if_congr Iff.rfl rfl (if_congr Iff.rfl rfl ?_)
  -- the cases of a collection on the one side and on the other exclude each other
  by_cases hv : v.isCollection = true
  · rw [isAtom_of_isCollection hv, Bool.false_and, if_neg Bool.false_ne_true,
      if_neg Bool.false_ne_true]
  · rw [Bool.eq_false_iff.2 hv, Bool.false_and, if_neg Bool.false_ne_true,
      if_neg Bool.false_ne_true]

/-- What is equal without conversion is equal. -/
theorem looseEq_of_strictEq {v w : Value} (h : v.strictEq w = true) : v.looseEq w = true := by
  cases v with
  | bool b =>
    cases w with
    | bool c =>
      obtain rfl : b = c := eq_of_beq h
      cases b <;> decide +kernel
    | _ => cases h
  | _ => cases w <;> simp_all [strictEq, looseEq, atomEq, isNullish, isBool, isCollection, isAtom]

/-- An item that is equal to itself is among the items. -/
theorem sameItem_of_strictEq {v w : Value} (h : v.strictEq w = true) : v.sameItem w = true := by
  cases v with
  | number x =>
    cases w with
    | number y => exact Bool.or_eq_true_iff.2 (Or.inl h)
    | _ => exact h
  | _ => exact h

end Value

section

variable {call : Caller} {mark : Mark} {items : List Value} {v : Value}

theorem includes_of_mem (hv : v ∈ items) (h : v.strictEq v = true) :
    arrayMethod call mark items .includes [v] = pure (.bool true) := by
  have hany : items.any (·.sameItem v) = true :=
    List.any_eq_true.2 ⟨v, hv, Value.sameItem_of_strictEq h⟩
  show pure (Value.bool (items.any (·.sameItem v))) = _
  rw [hany]

theorem indexOf_of_getElem? {i : Nat} (hv : items[i]? = some v) (h : v.strictEq v = true) :
    ∃ j ≤ i, arrayMethod call mark items .indexOf [v] = pure (.ofNat j) := by
  obtain ⟨hi, hiv⟩ := List.getElem?_eq_some_iff.1 hv
  have hsome : (items.findIdx? (·.strictEq v)).isSome = true := by
    rw [List.findIdx?_isSome, List.any_eq_true]
    exact ⟨v, hiv ▸ List.getElem_mem hi, h⟩
  obtain ⟨j, hj⟩ := Option.isSome_iff_exists.1 hsome
  obtain ⟨_, -, hfirst⟩ := List.findIdx?_eq_some_iff_getElem.1 hj
  refine ⟨j, Nat.le_of_not_lt fun hlt => hfirst i hlt (hiv ▸ h), ?_⟩
  show pure (orMinusOne (items.findIdx? (·.strictEq v))) = _
  rw [hj]
  rfl

/-- A function is not found, wherever it is. -/
theorem includes_func (f : Func) :
    arrayMethod call mark items .includes [.func f] = pure (.bool false) := by
  have hany : items.any (·.sameItem (.func f)) = false := by
    refine List.any_eq_false.2 fun w _ => ?_
    cases w <;> exact Bool.false_ne_true
  show pure (Value.bool (items.any (·.sameItem (.func f)))) = _
  rw [hany]

end

/-- Equality without conversion is symmetric and transitive, and of all values only functions and
what is no number differ from themselves. Equality after conversion is symmetric, and holds of what
is equal without it. So an item of an array, unless it is no number, is found there, at its position
or before, if and only if it is no function. -/
theorem strictEq_reflexive_iff_not_func (v w : Value) :
    (v.strictEq v = true ↔ ¬ v.IsNaN ∧ ¬ v.IsFunc) ∧
    v.strictEq w = w.strictEq v ∧
    (∀ u : Value, u.strictEq v = true → v.strictEq w = true → u.strictEq w = true) ∧
    (v.strictEq w = true → v.looseEq w = true) ∧
    v.looseEq w = w.looseEq v ∧
    (∀ (call : Caller) (mark : Mark) (items : List Value) (i : Nat),
      items[i]? = some v → ¬ v.IsNaN →
        (arrayMethod call mark items .includes [v] = pure (.bool true) ∧
            (∃ j ≤ i, arrayMethod call mark items .indexOf [v] = pure (.ofNat j)) ↔
          ¬ v.IsFunc)) := by
  refine ⟨v.strictEq_self_iff, v.strictEq_comm w, fun _ => Value.strictEq_trans,
    Value.looseEq_of_strictEq, v.looseEq_comm w, fun call mark items i hv hn => ?_⟩
  constructor
  · rintro ⟨hfound, -⟩ ⟨f, rfl⟩
    rw [includes_func] at hfound
    exact Bool.false_ne_true (Value.bool.inj (pure_inj hfound))
  · intro hf
    have hself := v.strictEq_self_iff.2 ⟨hn, hf⟩
    exact ⟨includes_of_mem (List.mem_of_getElem? hv) hself, indexOf_of_getElem? hv hself⟩

/-- An array in an array is found by what it is, not by what is in it. -/
theorem strictEq_reflexive_iff_not_func_in_row :
    ∃ j ≤ 1, arrayMethod (callValue 1) { origin := .made 2 }
      [.array { origin := .made 0 } [], .array { origin := .made 1 } []] .indexOf
      [.array { origin := .made 1 } []] = pure (.ofNat j) := by
  have hnan : ¬ (Value.array { origin := .made 1 } []).IsNaN := fun ⟨_, h, _⟩ => nomatch h
  have hfunc : ¬ (Value.array { origin := .made 1 } []).IsFunc := fun ⟨_, h⟩ => nomatch h
  obtain ⟨-, -, -, -, -, hsearch⟩ :=
    strictEq_reflexive_iff_not_func (.array { origin := .made 1 } []) .undefined
  exact ((hsearch (callValue 1) { origin := .made 2 }
    [.array { origin := .made 0 } [], .array { origin := .made 1 } []] 1 rfl hnan).2 hfunc).2

/-- A function that is asked whether its argument is equal to itself gets a function. -/
def selfComparison : Expr :=
  .call (.arrow ["f"] (.binary .strictEq (.name "f") (.name "f"))) [.arrow ["x"] (.name "x")] false

/-- The value of a name differs from the value of the same name. -/
theorem not_every_value_strictEq_self :
    Expr.parse 64 "(f => f === f)(x => x)" = .ok selfComparison ∧
      run selfComparison { limits := {}, now := ⟨0, 0⟩, roots := [], zones := .known } {} =
        .ok (.bool false) { ticks := 7 } ∧
      ¬ ∀ v : Value, ¬ v.IsNaN → v.strictEq v = true := by
  refine ⟨by with_unfolding_all rfl, rfl, fun h => ?_⟩
  have hself := h (.func (.closure ["x"] (.name "x") [])) fun ⟨_, hv, _⟩ => nomatch hv
  exact Bool.false_ne_true hself

end Workflow.Eval
