import Mathlib.Tactic.Common
import Workflow.Proofs.Eval.NamedCalls
import Workflow.Proofs.Fields

/-! The tables of names and the arms of the dispatchers do not drift apart: calls by name are the
calls of the functions themselves, under whatever listed names the functions are known. -/
namespace Workflow.Eval

variable {α : Type}

theorem nativeArm_of_mem : ∀ p ∈ Native.table, nativeArm p.1 = .body p.2 := by
  decide +kernel

/-- A global object that is also a function has an arm of its own. -/
theorem nativeArm_name {s : Namespace} (h : s.isCallable = true) :
    nativeArm s.name = .convert s := by
  cases s <;> first | rfl | exact absurd h (by decide)

/-- The last arm for texts is that of two methods, which do the same. -/
theorem stringArm_of_mem : ∀ p ∈ StringMethod.table,
    stringArm p.1 = p.2 ∨ (stringArm p.1 = .valueOf ∧ p.2 = .toString) := by
  decide

theorem arrayArm_of_mem : ∀ p ∈ ArrayMethod.table, arrayArm p.1 = .body p.2 := by
  decide

theorem numberArm_of_mem : ∀ p ∈ NumberMethod.table, numberArm p.1 = p.2 := by
  decide

theorem boolArm_of_mem : ∀ p ∈ BoolMethod.table, boolArm p.1 = p.2 := by
  decide

theorem dateArm_of_mem : ∀ p ∈ DateMethod.table, dateArm p.1 = p.2 := by
  decide

theorem momentArm_of_mem : ∀ p ∈ MomentMethod.table, momentArm p.1 = p.2 := by
  decide

theorem listed_of_mem {table : List (String × α)} {name : String} {a : α}
    (h : (name, a) ∈ table) : name ∈ table.map (·.1) :=
  List.mem_map.2 ⟨_, h, rfl⟩

theorem GoesBy.of_arm {f : Func} {n : NamedFunc} (hl : n.Listed) (ha : n.arm = .body f) :
    GoesBy f n where
  listed := hl
  run call args := by
    rw [ha]
    rfl

theorem goesBy_native {name : String} {f : Native} (h : (name, f) ∈ Native.table) :
    GoesBy (.native f) (.native name) :=
  .of_arm (listed_of_mem h) (congrArg (Arm.map Func.native) (nativeArm_of_mem _ h))

theorem goesBy_string {key : String} {m : StringMethod} (h : (key, m) ∈ StringMethod.table)
    (s : String) : GoesBy (.stringMethod s m) (.bound (.string s) key) where
  listed := listed_of_mem h
  run call args := by
    show stringMethod call s (stringArm key) args = stringMethod call s m args
    rcases stringArm_of_mem _ h with hm | ⟨hkey, hm⟩
    · rw [hm]
    · rw [hkey, show m = .toString from hm]
      rfl

theorem goesBy_array {key : String} {m : ArrayMethod} (h : (key, m) ∈ ArrayMethod.table)
    (mark : Mark) (items : List Value) :
    GoesBy (.arrayMethod mark items m) (.bound (.array mark items) key) :=
  .of_arm (listed_of_mem h)
    (congrArg (Arm.map (Func.arrayMethod mark items)) (arrayArm_of_mem _ h))

theorem goesBy_number {key : String} {m : NumberMethod} (h : (key, m) ∈ NumberMethod.table)
    (x : Float) : GoesBy (.numberMethod x m) (.bound (.number x) key) :=
  .of_arm (listed_of_mem h) (congrArg (Arm.body ∘ Func.numberMethod x) (numberArm_of_mem _ h))

theorem goesBy_bool {key : String} {m : BoolMethod} (h : (key, m) ∈ BoolMethod.table) (b : Bool) :
    GoesBy (.boolMethod b m) (.bound (.bool b) key) :=
  .of_arm (listed_of_mem h) (congrArg (Arm.body ∘ Func.boolMethod b) (boolArm_of_mem _ h))

theorem goesBy_date {key : String} {m : DateMethod} (h : (key, m) ∈ DateMethod.table)
    (t : Time.Timestamp) : GoesBy (.dateMethod t m) (.bound (.date t) key) :=
  .of_arm (listed_of_mem h) (congrArg (Arm.body ∘ Func.dateMethod t) (dateArm_of_mem _ h))

theorem goesBy_moment {key : String} {m : MomentMethod} (h : (key, m) ∈ MomentMethod.table)
    (t : Time.Moment) : GoesBy (.momentMethod t m) (.bound (.moment t) key) :=
  .of_arm (listed_of_mem h) (congrArg (Arm.body ∘ Func.momentMethod t) (momentArm_of_mem _ h))

theorem goesBy_closure (params : List String) (body : Expr) (env : Env) :
    GoesBy (.closure params body env) (.closure params body env) where
  listed := trivial
  run _ _ := rfl

theorem mem_table_of_global {name : String} {f : Native} (h : (name, f) ∈ Native.globals) :
    (name, f) ∈ Native.table :=
  List.mem_append_left _ h

theorem mem_table_of_member {s : Namespace} {key : String} {f : Native}
    (h : (key, f) ∈ Native.members s) : (s.memberName key, f) ∈ Native.table := by
  have hs : (s.name, s) ∈ Namespace.table := by
    cases s <;> decide
  exact List.mem_append_right _
    (List.mem_flatMap.2 ⟨_, hs, List.mem_map.2 ⟨_, h, rfl⟩⟩)

theorem goesBy_of_global? {name : String} {f : Func} (h : global? name = some (.func f)) :
    GoesBy f (.native name) := by
  unfold global? at h
  cases hs : named? Namespace.table name with
  | some s =>
    rw [hs] at h
    exact absurd h (by simp)
  | none =>
    rw [hs] at h
    obtain ⟨g, hg, hf⟩ := Option.map_eq_some_iff.1 h
    obtain rfl := Value.func.inj hf
    exact goesBy_native (mem_table_of_global (Fields.mem_of_lookup hg))

theorem goesBy_of_spaceMember {s : Namespace} {key : String} {f : Func}
    (h : spaceMember s key = .func f) : GoesBy f (.native (s.memberName key)) := by
  unfold spaceMember at h
  cases hc : named? (constants s) key with
  | some x =>
    rw [hc] at h
    exact absurd h (by simp)
  | none =>
    rw [hc] at h
    cases hg : named? (Native.members s) key with
    | none =>
      rw [hg] at h
      exact absurd h (by simp)
    | some g =>
      rw [hg] at h
      obtain rfl := Value.func.inj h
      exact goesBy_native (mem_table_of_member (Fields.mem_of_lookup hg))

/-- A method that is found is in the table. -/
theorem exists_of_bind? {table : List (String × α)} {key : String} {method : α → Func} {f : Func}
    (h : bind? table key method = .func f) : ∃ m, (key, m) ∈ table ∧ method m = f := by
  unfold bind? at h
  cases hm : named? table key with
  | none =>
    rw [hm] at h
    exact absurd h (by simp)
  | some m =>
    rw [hm] at h
    exact ⟨m, Fields.mem_of_lookup hm, Value.func.inj h⟩

theorem goesBy_of_arrayMember {mark : Mark} {items : List Value} {key : String} {f : Func}
    (h : arrayMember mark items key = .func f) :
    .func f ∈ items ∨ GoesBy f (.bound (.array mark items) key) := by
  unfold arrayMember at h
  cases hi : index? key with
  | some i =>
    rw [hi] at h
    dsimp only at h
    rw [List.getD_eq_getElem?_getD] at h
    cases hv : items[i]? with
    | none =>
      rw [hv] at h
      exact absurd h (by simp)
    | some v =>
      rw [hv] at h
      obtain rfl : v = .func f := h
      exact Or.inl (List.mem_of_getElem? hv)
  | none =>
    rw [hi] at h
    dsimp only at h
    by_cases hl : key = "length"
    · rw [if_pos hl] at h
      exact absurd h (by simp [Value.ofNat])
    · rw [if_neg hl] at h
      obtain ⟨m, hm, rfl⟩ := exists_of_bind? h
      exact Or.inr (goesBy_array hm mark items)

theorem goesBy_of_stringMember {s key : String} {f : Func} (h : stringMember s key = .func f) :
    GoesBy f (.bound (.string s) key) := by
  unfold stringMember at h
  cases hi : index? key with
  | some i =>
    rw [hi] at h
    dsimp only at h
    cases hc : s.toList[i]? with
    | none =>
      rw [hc] at h
      exact absurd h (by simp)
    | some c =>
      rw [hc] at h
      exact absurd h (by simp [Value.ofChar])
  | none =>
    rw [hi] at h
    dsimp only at h
    by_cases hl : key = "length"
    · rw [if_pos hl] at h
      exact absurd h (by simp [Value.ofNat])
    · rw [if_neg hl] at h
      obtain ⟨m, hm, rfl⟩ := exists_of_bind? h
      exact goesBy_string hm s

theorem momentField_ne_func (t : Time.Moment) (field : MomentField) (f : Func) :
    momentField t field ≠ .func f := by
  cases field <;> simp [momentField, Value.ofNat]

/-- A member that is a function was put into the value, or it goes by the name of the member. -/
theorem goesBy_of_member {v : Value} {key : String} {f : Func} (h : member v key = .func f) :
    .func f ∈ v.parts ∨ (∃ s, v = .space s ∧ GoesBy f (.native (s.memberName key))) ∨
      GoesBy f (.bound v key) := by
  unfold member at h
  cases v with
  | undefined => exact absurd h (by simp)
  | null => exact absurd h (by simp)
  | func g => exact absurd h (by simp)
  | object mark entries =>
    dsimp only at h
    cases hv : Fields.get? entries key with
    | none =>
      rw [hv] at h
      exact absurd h (by simp)
    | some v =>
      rw [hv] at h
      obtain rfl : v = .func f := h
      exact Or.inl (List.mem_map.2 ⟨_, Fields.mem_of_lookup hv, rfl⟩)
  | array mark items => exact (goesBy_of_arrayMember h).imp_right Or.inr
  | string s => exact Or.inr (Or.inr (goesBy_of_stringMember h))
  | space s => exact Or.inr (Or.inl ⟨s, rfl, goesBy_of_spaceMember h⟩)
  | number x =>
    obtain ⟨m, hm, rfl⟩ := exists_of_bind? h
    exact Or.inr (Or.inr (goesBy_number hm x))
  | bool b =>
    obtain ⟨m, hm, rfl⟩ := exists_of_bind? h
    exact Or.inr (Or.inr (goesBy_bool hm b))
  | date t =>
    obtain ⟨m, hm, rfl⟩ := exists_of_bind? h
    exact Or.inr (Or.inr (goesBy_date hm t))
  | moment t =>
    dsimp only at h
    cases hfield : named? MomentField.table key with
    | some field =>
      rw [hfield] at h
      exact absurd h (momentField_ne_func t field f)
    | none =>
      rw [hfield] at h
      obtain ⟨m, hm, rfl⟩ := exists_of_bind? h
      exact Or.inr (Or.inr (goesBy_moment hm t))

/-- The first name in a table. -/
def nameIn [DecidableEq α] (table : List (String × α)) (a : α) : String :=
  ((table.find? (·.2 = a)).map (·.1)).getD ""

theorem mem_of_nameIn [DecidableEq α] {table : List (String × α)} {a : α}
    (h : a ∈ table.map (·.2)) : (nameIn table a, a) ∈ table := by
  unfold nameIn
  cases hp : table.find? (·.2 = a) with
  | none =>
    obtain ⟨p, hp', rfl⟩ := List.mem_map.1 h
    exact absurd (List.find?_eq_none.1 hp p hp') (by simp)
  | some p =>
    have ha : p.2 = a := by simpa using List.find?_some hp
    exact ha ▸ List.mem_of_find?_eq_some hp

theorem Native.mem_table (f : Native) : f ∈ Native.table.map (·.2) := by
  cases f with
  | nodeHelper h => cases h <;> decide +kernel
  | math op => cases op <;> decide +kernel
  | _ => decide +kernel

theorem StringMethod.mem_table (m : StringMethod) : m ∈ StringMethod.table.map (·.2) := by
  cases m <;> decide

theorem ArrayMethod.mem_table (m : ArrayMethod) : m ∈ ArrayMethod.table.map (·.2) := by
  cases m <;> decide

theorem NumberMethod.mem_table (m : NumberMethod) : m ∈ NumberMethod.table.map (·.2) := by
  cases m <;> decide

theorem BoolMethod.mem_table (m : BoolMethod) : m ∈ BoolMethod.table.map (·.2) := by
  cases m <;> decide

theorem DateMethod.mem_table (m : DateMethod) : m ∈ DateMethod.table.map (·.2) := by
  cases m <;> decide

theorem MomentMethod.mem_table (m : MomentMethod) : m ∈ MomentMethod.table.map (·.2) := by
  cases m <;> decide

/-- A function by its first name. -/
def NamedFunc.ofFunc : Func → NamedFunc
  | .native f => .native (nameIn Native.table f)
  | .stringMethod s m => .bound (.string s) (nameIn StringMethod.table m)
  | .arrayMethod mark items m => .bound (.array mark items) (nameIn ArrayMethod.table m)
  | .numberMethod x m => .bound (.number x) (nameIn NumberMethod.table m)
  | .boolMethod b m => .bound (.bool b) (nameIn BoolMethod.table m)
  | .dateMethod t m => .bound (.date t) (nameIn DateMethod.table m)
  | .momentMethod t m => .bound (.moment t) (nameIn MomentMethod.table m)
  | .closure params body env => .closure params body env

theorem goesBy_ofFunc (f : Func) : GoesBy f (.ofFunc f) := by
  cases f with
  | native f => exact goesBy_native (mem_of_nameIn f.mem_table)
  | stringMethod s m => exact goesBy_string (mem_of_nameIn m.mem_table) s
  | arrayMethod mark items m => exact goesBy_array (mem_of_nameIn m.mem_table) mark items
  | numberMethod x m => exact goesBy_number (mem_of_nameIn m.mem_table) x
  | boolMethod b m => exact goesBy_bool (mem_of_nameIn m.mem_table) b
  | dateMethod t m => exact goesBy_date (mem_of_nameIn m.mem_table) t
  | momentMethod t m => exact goesBy_moment (mem_of_nameIn m.mem_table) t
  | closure params body env => exact goesBy_closure params body env

/-- Every function under its first name. -/
def Naming.first : Naming where
  name _ := .ofFunc
  goesBy _ := goesBy_ofFunc

/-- A listed name is that of a function. -/
theorem arm_of_listed {n : NamedFunc} (h : n.Listed) : ∃ f, n.arm = .body f := by
  unfold NamedFunc.arm
  cases n with
  | native name =>
    obtain ⟨⟨name, f⟩, hf, rfl⟩ := List.mem_map.1 h
    dsimp only
    rw [nativeArm_of_mem _ hf]
    exact ⟨.native f, rfl⟩
  | closure params body env => exact ⟨_, rfl⟩
  | bound receiver method =>
    unfold methodArm
    cases receiver with
    | string s => exact ⟨_, rfl⟩
    | number x => exact ⟨_, rfl⟩
    | bool b => exact ⟨_, rfl⟩
    | date t => exact ⟨_, rfl⟩
    | moment t => exact ⟨_, rfl⟩
    | array mark items =>
      obtain ⟨⟨method, m⟩, hm, rfl⟩ := List.mem_map.1 h
      dsimp only
      rw [arrayArm_of_mem _ hm]
      exact ⟨.arrayMethod mark items m, rfl⟩
    | undefined => exact absurd h List.not_mem_nil
    | null => exact absurd h List.not_mem_nil
    | object mark entries => exact absurd h List.not_mem_nil
    | space s => exact absurd h List.not_mem_nil
    | func f => exact absurd h List.not_mem_nil

theorem typeName_space (s : Namespace) :
    (Value.space s).typeName = "function" ↔ s.isCallable = true := by
  cases s <;> decide

theorem calleeArm?_space {name : Func → NamedFunc} {s : Namespace} :
    calleeArm? name (.space s) = if s.isCallable then some (.convert s) else none := by
  unfold calleeArm?
  by_cases hs : s.isCallable = true
  · rw [if_pos hs]
    dsimp only
    rw [if_pos ((typeName_space s).2 hs), nativeArm_name hs]
    rfl
  · rw [if_neg hs]
    exact if_neg fun h => hs ((typeName_space s).1 h)

/-- A value is refused exactly if its type is not that of functions. -/
theorem calleeArm?_eq_none_iff {name : Func → NamedFunc} {callee : Value} :
    calleeArm? name callee = none ↔ callee.typeName ≠ "function" := by
  cases callee with
  | func f => simp [calleeArm?, Value.typeName]
  | space s =>
    rw [calleeArm?_space, Ne, typeName_space]
    simp
  | _ => simp [calleeArm?, Value.typeName]

theorem calleeArm?_ne_stray {name : Func → NamedFunc} (hn : ∀ f, GoesBy f (name f))
    (callee : Value) (s : Stray) : calleeArm? name callee ≠ some (.stray s) := by
  cases callee with
  | func f =>
    obtain ⟨g, hg⟩ := arm_of_listed (hn f).listed
    simp [calleeArm?, hg]
  | space t =>
    rw [calleeArm?_space]
    split <;> simp
  | _ => simp [calleeArm?]

theorem callNamedOnce_eq {name : Func → NamedFunc} (hn : ∀ f, GoesBy f (name f)) (call : Caller)
    (callee : Value) (args : List Value) :
    callNamedOnce name call callee args = callOnce call callee args := by
  unfold callNamedOnce callOnce
  refine congrArg _ (funext fun _ => ?_)
  cases callee with
  | func f => exact (hn f).run call args
  | space s =>
    dsimp only
    rw [calleeArm?_space]
    by_cases hs : s.isCallable = true
    · rw [if_pos hs, if_pos hs]
      rfl
    · rw [if_neg hs, if_neg hs]
  | _ => rfl

theorem callNamed_eq (naming : Naming) (fuel : Nat) : callNamed naming fuel = callValue fuel := by
  induction fuel with
  | zero => rfl
  | succ fuel ih =>
    funext callee args setting meter
    show callNamedOnce (naming.name meter) (callNamed naming fuel) callee args setting meter =
      callOnce (callValue fuel) callee args setting meter
    rw [callNamedOnce_eq (naming.goesBy meter), ih]

/-- Lookups and calls by name do not drift apart. -/
theorem lookups_agree_with_calls :
    -- a function in sight goes by the name that was looked up
    (∀ name f, global? name = some (.func f) → GoesBy f (.native name)) ∧
    -- so does a function that is a member of a value, unless it was put into the value
    (∀ v key f, member v key = .func f → .func f ∈ v.parts ∨
      (∃ s, v = .space s ∧ GoesBy f (.native (s.memberName key))) ∨ GoesBy f (.bound v key)) ∧
    -- wherever a function comes from, it goes by a listed name, and listed names are of functions
    (∀ f, ∃ n, GoesBy f n) ∧
    (∀ n : NamedFunc, n.Listed → ∃ f, n.arm = .body f) ∧
    -- a value is refused exactly if its type is not that of functions; no call comes to a last arm
    (∀ (naming : Naming) meter callee,
      (calleeArm? (naming.name meter) callee = none ↔ callee.typeName ≠ "function") ∧
      ∀ s, calleeArm? (naming.name meter) callee ≠ some (.stray s)) ∧
    -- calls by name are the calls, and so are whole evaluations
    (∀ (naming : Naming) meter call callee args,
      callNamedOnce (naming.name meter) call callee args = callOnce call callee args) ∧
    (∀ (naming : Naming) fuel e, eval (callNamed naming fuel) [] e = runWith fuel e) := by
  refine ⟨fun _ _ => goesBy_of_global?, fun _ _ _ => goesBy_of_member,
    fun f => ⟨_, goesBy_ofFunc f⟩, fun _ => arm_of_listed, fun naming meter callee => ?_,
    fun naming meter => callNamedOnce_eq (naming.goesBy meter), fun naming fuel e => ?_⟩
  · exact ⟨calleeArm?_eq_none_iff, calleeArm?_ne_stray (naming.goesBy meter) callee⟩
  · rw [callNamed_eq]
    rfl

theorem lookups_agree_with_calls_of_math :
    calleeArm? (Naming.first.name {}) (.space .math) = none ∧
      calleeArm? (Naming.first.name {}) (.func (.native (.math .max))) ≠ none := by
  obtain ⟨-, -, -, -, hcallee, -, -⟩ := lookups_agree_with_calls
  constructor
  · exact (hcallee Naming.first {} (.space .math)).1.2 (by decide)
  · exact fun h => (hcallee Naming.first {} _).1.1 h rfl

end Workflow.Eval
