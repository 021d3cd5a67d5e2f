import Workflow.Eval.Run
import Workflow.Proofs.Fields

/-! Values whose marks are given out anew. Nothing that is read off a value tells which numbers its
marks have, only which of them are the same. -/
namespace Workflow.Eval

def Origin.relabel (g : Nat → Nat) : Origin → Origin
  | .root name => .root name
  | .made serial => .made (g serial)

def Mark.relabel (g : Nat → Nat) (m : Mark) : Mark :=
  { m with origin := m.origin.relabel g }

section

variable (g : Nat → Nat)

mutual

/-- The value with other marks on all arrays and objects in it, also on those that its functions
have in sight. -/
def Value.relabel : Value → Value
  | .array m items => .array (m.relabel g) (relabelItems items)
  | .object m entries => .object (m.relabel g) (relabelEntries entries)
  | .func f => .func f.relabel
  | v => v

def Func.relabel : Func → Func
  | .arrayMethod m items method => .arrayMethod (m.relabel g) (relabelItems items) method
  | .closure params body env => .closure params body (relabelEntries env)
  | f => f

def relabelItems : List Value → List Value
  | [] => []
  | v :: rest => v.relabel :: relabelItems rest

def relabelEntries : List (String × Value) → List (String × Value)
  | [] => []
  | (key, v) :: rest => (key, v.relabel) :: relabelEntries rest

end

end

/-- An entry or variable with other marks. -/
def relabelEntry (g : Nat → Nat) (e : String × Value) : String × Value :=
  (e.1, e.2.relabel g)

abbrev Link.relabel (g : Nat → Nat) (link : Link) : Link :=
  link.map (Value.relabel g)

variable {g : Nat → Nat}

theorem relabelItems_eq (items : List Value) :
    relabelItems g items = items.map (Value.relabel g) := by
  induction items with
  | nil => rfl
  | cons v rest ih =>
    rw [List.map_cons, ← ih]
    rfl

theorem relabelEntries_eq (entries : List (String × Value)) :
    relabelEntries g entries = entries.map (relabelEntry g) := by
  induction entries with
  | nil => rfl
  | cons e rest ih =>
    rw [List.map_cons, ← ih]
    rfl

@[simp]
theorem relabel_array (m : Mark) (items : List Value) : (Value.array m items).relabel g =
    .array (m.relabel g) (items.map (Value.relabel g)) := by
  rw [← relabelItems_eq]
  rfl

@[simp]
theorem relabel_object (m : Mark) (entries : List (String × Value)) :
    (Value.object m entries).relabel g = .object (m.relabel g) (entries.map (relabelEntry g)) := by
  rw [← relabelEntries_eq]
  rfl

@[simp]
theorem relabel_moment (m : Time.Moment) : (Value.moment m).relabel g = .moment m :=
  rfl

theorem relabel_arrayMethod (m : Mark) (items : List Value) (method : ArrayMethod) :
    (Func.arrayMethod m items method).relabel g =
      .arrayMethod (m.relabel g) (items.map (Value.relabel g)) method := by
  rw [← relabelItems_eq]
  rfl

theorem relabel_closure (params : List String) (body : Expr) (env : Env) :
    (Func.closure params body env).relabel g = .closure params body (env.map (relabelEntry g)) := by
  rw [← relabelEntries_eq]
  rfl

namespace Value

@[simp]
theorem isNullish_relabel (v : Value) : (v.relabel g).isNullish = v.isNullish := by
  cases v
  all_goals rfl

@[simp]
theorem isFunction_relabel (v : Value) : (v.relabel g).isFunction = v.isFunction := by
  cases v
  all_goals rfl

@[simp]
theorem isTruthy_relabel (v : Value) : (v.relabel g).isTruthy = v.isTruthy := by
  cases v
  all_goals rfl

@[simp]
theorem typeName_relabel (v : Value) : (v.relabel g).typeName = v.typeName := by
  cases v
  all_goals rfl

@[simp]
theorem isCollection_relabel (v : Value) : (v.relabel g).isCollection = v.isCollection := by
  cases v
  all_goals rfl

@[simp]
theorem isAtom_relabel (v : Value) : (v.relabel g).isAtom = v.isAtom := by
  cases v
  all_goals rfl

@[simp]
theorem isBool_relabel (v : Value) : (v.relabel g).isBool = v.isBool := by
  cases v
  all_goals rfl

mutual

@[simp]
theorem write_relabel (out : String) (v : Value) : (v.relabel g).write out = v.write out := by
  cases v with
  | array m items => exact writeItems_relabel out true items
  | _ => rfl
termination_by structural v

theorem writeItems_relabel (out : String) (first : Bool) (items : List Value) :
    writeItems out first (relabelItems g items) = writeItems out first items := by
  cases items with
  | nil => rfl
  | cons v rest =>
    have hv (out : String) : (v.relabel g).write out = v.write out := write_relabel out v
    have hrest (out : String) (first : Bool) :
        writeItems out first (relabelItems g rest) = writeItems out first rest :=
      writeItems_relabel out first rest
    -- what is nullish leaves its place empty, everything else is written there
    cases v
    case undefined | null => exact hrest _ _
    all_goals
      show writeItems (write _ _) false (relabelItems g rest) = writeItems (write _ _) false rest
      rw [hrest]
      exact congrArg (writeItems · false rest) (hv _)
termination_by structural items

end

@[simp]
theorem display_relabel (v : Value) : (v.relabel g).display = v.display :=
  write_relabel "" v

@[simp]
theorem toNumber_relabel : ∀ v : Value, (v.relabel g).toNumber = v.toNumber
  | .array _ [] => rfl
  | .array _ [v] => toNumber_relabel v
  | .array _ (_ :: _ :: _) => rfl
  | .undefined | .null | .bool _ | .number _ | .string _ | .object _ _ | .date _ | .moment _
  | .space _ | .func _ => rfl
termination_by structural v => v

@[simp]
theorem toInteger_relabel (v : Value) : (v.relabel g).toInteger = v.toInteger := by
  unfold toInteger
  rw [toNumber_relabel]

mutual

@[simp]
theorem toJson?_relabel (v : Value) : (v.relabel g).toJson? = v.toJson? := by
  cases v with
  | array m items => exact congrArg (some ∘ Json.array) (itemsToJson_relabel [] items)
  | object m entries => exact congrArg (some ∘ Json.object) (entriesToJson_relabel [] entries)
  | _ => rfl
termination_by structural v

theorem itemsToJson_relabel (done : List Json) (items : List Value) :
    itemsToJson done (relabelItems g items) = itemsToJson done items := by
  cases items with
  | nil => rfl
  | cons v rest =>
    show itemsToJson (((v.relabel g).toJson?).getD .null :: done) (relabelItems g rest) = _
    rw [toJson?_relabel v, itemsToJson_relabel _ rest]
    rfl
termination_by structural items

theorem entriesToJson_relabel (done : List (String × Json)) (entries : List (String × Value)) :
    entriesToJson done (relabelEntries g entries) = entriesToJson done entries := by
  cases entries with
  | nil => rfl
  | cons e rest =>
    obtain ⟨key, v⟩ := e
    show entriesToJson (match (v.relabel g).toJson? with
      | some j => (key, j) :: done
      | none => done) (relabelEntries g rest) = _
    rw [toJson?_relabel v, entriesToJson_relabel _ rest]
    rfl
termination_by structural entries

end

@[simp]
theorem toPrimitive_relabel (v : Value) : (v.relabel g).toPrimitive = v.toPrimitive := by
  cases v with
  -- an array is its text, which is the text of all that is in it
  | array m items =>
    have htext := display_relabel (g := g) (.array m items)
    rw [relabel_array] at htext ⊢
    exact congrArg Value.string htext
  | object m entries => rfl
  | _ => rfl

theorem relabel_eq_undefined_iff {v : Value} : v.relabel g = .undefined ↔ v = .undefined := by
  cases v
  case undefined => exact Iff.rfl
  all_goals exact ⟨nofun, nofun⟩

theorem goesBehind_of_ne {v w : Value} (hv : v ≠ .undefined) (hw : w ≠ .undefined) :
    v.goesBehind w = (textOrder v.display w.display == .gt) := by
  unfold goesBehind
  split
  · contradiction
  · contradiction
  · contradiction
  · rfl

@[simp]
theorem goesBehind_relabel (v w : Value) :
    (v.relabel g).goesBehind (w.relabel g) = v.goesBehind w := by
  -- nothing goes behind everything else, whatever its text
  by_cases hv : v = .undefined
  · subst hv
    cases w
    all_goals rfl
  · by_cases hw : w = .undefined
    · subst hw
      cases v
      all_goals rfl
    · have hv' : v.relabel g ≠ .undefined := mt relabel_eq_undefined_iff.1 hv
      have hw' : w.relabel g ≠ .undefined := mt relabel_eq_undefined_iff.1 hw
      rw [goesBehind_of_ne hv' hw', goesBehind_of_ne hv hw, display_relabel, display_relabel]

section

variable (hg : Function.Injective g)
include hg

theorem mark_beq_relabel (m m' : Mark) : (m.relabel g == m'.relabel g) = (m == m') := by
  obtain ⟨origin, place⟩ := m
  obtain ⟨origin', place'⟩ := m'
  have hiff : Mark.relabel g ⟨origin, place⟩ = Mark.relabel g ⟨origin', place'⟩ ↔
      (⟨origin, place⟩ : Mark) = ⟨origin', place'⟩ := by
    cases origin
    all_goals cases origin'
    all_goals simp [Mark.relabel, Origin.relabel, hg.eq_iff]
  rw [Bool.eq_iff_iff, beq_iff_eq, beq_iff_eq]
  exact hiff

theorem strictEq_relabel (v w : Value) : (v.relabel g).strictEq (w.relabel g) = v.strictEq w := by
  cases v with
  | array m items =>
    cases w with
    | array m' items' => exact mark_beq_relabel hg m m'
    | _ => rfl
  | object m entries =>
    cases w with
    | object m' entries' => exact mark_beq_relabel hg m m'
    | _ => rfl
  | _ =>
    cases w
    all_goals rfl

theorem sameItem_relabel (v w : Value) : (v.relabel g).sameItem (w.relabel g) = v.sameItem w := by
  cases v with
  | number x =>
    cases w
    all_goals rfl
  | func f =>
    cases w
    all_goals rfl
  | _ => exact strictEq_relabel hg _ w

theorem atomEq_relabel (v w : Value) : atomEq (v.relabel g) (w.relabel g) = atomEq v w := by
  cases v with
  | number x =>
    cases w
    all_goals rfl
  | string s =>
    cases w
    all_goals rfl
  | func f =>
    cases w
    all_goals rfl
  | _ => exact strictEq_relabel hg _ w

theorem looseEq_relabel (v w : Value) : (v.relabel g).looseEq (w.relabel g) = v.looseEq w := by
  have hleft : atomEq (.string v.display) (w.relabel g) = atomEq (.string v.display) w :=
    atomEq_relabel hg (.string v.display) w
  have hright : atomEq (v.relabel g) (.string w.display) = atomEq v (.string w.display) :=
    atomEq_relabel hg v (.string w.display)
  unfold looseEq
  simp only [isNullish_relabel, isBool_relabel, toNumber_relabel, isCollection_relabel,
    isAtom_relabel, display_relabel, hleft, hright, atomEq_relabel hg]

end

end Value

/-- Only the marks from `n` on are given out anew. -/
def Keeps (n : Nat) (g : Nat → Nat) : Prop :=
  ∀ k < n, g k = k

/-- The marks in a value were made before the one with the number `n`: giving out that one and
later ones anew does not change the value. -/
def Value.MadeBefore (n : Nat) (v : Value) : Prop :=
  ∀ g : Nat → Nat, Function.Injective g → Keeps n g → v.relabel g = v

/-- Two values that differ at most in which marks from `n` on they have. -/
def Value.AlikeFrom (n : Nat) (v w : Value) : Prop :=
  ∃ g : Nat → Nat, Function.Injective g ∧ Keeps n g ∧ (w = v.relabel g ∨ v = w.relabel g)

variable {n : Nat}

theorem relabel_madeBefore {items : List Value} (h : ∀ v ∈ items, v.MadeBefore n)
    (hg : Function.Injective g) (hk : Keeps n g) : items.map (Value.relabel g) = items := by
  calc items.map (Value.relabel g)
    _ = items.map id := List.map_congr_left fun v hv => h v hv g hg hk
    _ = items := List.map_id items

theorem madeBefore_items {m : Mark} {items : List Value}
    (h : (Value.array m items).MadeBefore n) {v : Value} (hv : v ∈ items) : v.MadeBefore n := by
  intro g hg hk
  have harray := h g hg hk
  rw [relabel_array] at harray
  have hitems : items.map (Value.relabel g) = items.map id := by
    rw [List.map_id]
    exact (Value.array.inj harray).2
  exact List.map_inj_left.1 hitems v hv

theorem Value.AlikeFrom.isTruthy_eq {v w : Value} (h : v.AlikeFrom n w) :
    w.isTruthy = v.isTruthy := by
  obtain ⟨g, -, -, rfl | rfl⟩ := h
  · exact v.isTruthy_relabel
  · exact w.isTruthy_relabel.symm

end Workflow.Eval
