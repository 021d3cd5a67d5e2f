import Workflow.Context
import Workflow.Proofs.Fields

/-! What a map of outputs holds after any sequence of writes: under each key the last value that was
put there explicitly, or else the first one that came under another name of its node. -/
namespace Workflow.NodeOutputs

/-- A change of a map of outputs. -/
inductive Write where
  | insert (key : String) (value : Json)
  | insertAliased (id : String) (name : Option String) (value : Json)
  | addAlias (name : String) (value : Json)

namespace Write

def apply (outputs : NodeOutputs) : Write → NodeOutputs
  | .insert key value => outputs.insert key value
  | .insertAliased id name value => outputs.insertAliased id name value
  | .addAlias name value => (outputs.addAlias name value).1

/-- The value that is put under a key explicitly. -/
def explicit? (k : String) : Write → Option Json
  | .insert key value => if key = k then some value else none
  | .insertAliased id _ value => if id = k then some value else none
  | .addAlias .. => none

/-- The value that is offered for a key as the name of a node. -/
def offered? (k : String) : Write → Option Json
  | .insert .. => none
  | .insertAliased id name value => if name = some k ∧ k ≠ "" ∧ k ≠ id then some value else none
  | .addAlias name value => if name = k then some value else none

end Write

def applyAll (start : NodeOutputs) (writes : List Write) : NodeOutputs :=
  writes.foldl Write.apply start

/-- The value of the last explicit write to a key; the entries at the start are explicit. -/
def lastExplicit? (start : NodeOutputs) (writes : List Write) (k : String) : Option Json :=
  (writes.reverse.findSome? (Write.explicit? k)).or (start.get? k)

/-- The first value that is offered for a key. -/
def firstOffered? (writes : List Write) (k : String) : Option Json :=
  writes.findSome? (Write.offered? k)

theorem has_eq_isSome (outputs : NodeOutputs) (k : String) :
    outputs.has k = (outputs.get? k).isSome :=
  rfl

theorem get?_insert (outputs : NodeOutputs) (key k : String) (value : Json) :
    (outputs.insert key value).get? k = if key = k then some value else outputs.get? k := by
  have h := Fields.get?_insert outputs.entries key k value
  simp only [eq_comm (a := k)] at h
  exact h

/-- An alias is a value for a key that has none. -/
theorem get?_addAlias (outputs : NodeOutputs) (name k : String) (value : Json) :
    (outputs.addAlias name value).1.get? k =
      (outputs.get? k).or (if name = k then some value else none) := by
  unfold addAlias
  rw [has_eq_isSome]
  cases hv : outputs.get? name with
  | some v =>
    -- the key keeps what it has, and no other key is concerned
    by_cases hk : name = k
    · subst hk
      simp [hv]
    · simp [hk]
  | none =>
    simp only [Option.isSome_none, Bool.false_eq_true, if_false, get?_insert]
    by_cases hk : name = k
    · subst hk
      simp [hv]
    · simp [hk]

theorem get?_insertAliased (outputs : NodeOutputs) (id k : String) (name : Option String)
    (value : Json) :
    (outputs.insertAliased id name value).get? k =
      if id = k then some value
      else (outputs.get? k).or (if name = some k ∧ k ≠ "" then some value else none) := by
  unfold insertAliased
  rw [get?_insert]
  by_cases hid : id = k
  · rw [if_pos hid, if_pos hid]
  · rw [if_neg hid, if_neg hid]
    cases name with
    | none => simp
    | some name =>
      by_cases hskip : name = "" ∨ name = id
      · have hno : ¬(some name = some k ∧ k ≠ "") := by
          rintro ⟨hk, hne⟩
          obtain rfl := Option.some.inj hk
          exact hskip.elim hne fun h => hid h.symm
        simp only [hskip, hno, if_true, if_false, Option.or_none]
      · simp only [hskip, if_false, get?_addAlias, Option.some.injEq]
        have hne : name = k → k ≠ "" := fun h he => hskip (Or.inl (h.trans he))
        by_cases hk : name = k
        · simp [hk, hne hk]
        · simp [hk]

/-- What one write does to a key. -/
theorem get?_apply (outputs : NodeOutputs) (w : Write) (k : String) :
    (w.apply outputs).get? k = ((w.explicit? k).or (outputs.get? k)).or (w.offered? k) := by
  cases w with
  | insert key value =>
    simp only [Write.apply, Write.explicit?, Write.offered?, get?_insert, Option.or_none]
    split
    · rfl
    · rfl
  | insertAliased id name value =>
    simp only [Write.apply, Write.explicit?, Write.offered?, get?_insertAliased]
    by_cases hid : id = k
    · simp [hid]
    · simp [hid, Ne.symm hid]
  | addAlias name value =>
    simp only [Write.apply, Write.explicit?, Write.offered?, get?_addAlias, Option.none_or]

theorem lastExplicit?_cons (start : NodeOutputs) (w : Write) (writes : List Write) (k : String) :
    lastExplicit? start (w :: writes) k =
      (writes.reverse.findSome? (Write.explicit? k)).or ((w.explicit? k).or (start.get? k)) := by
  unfold lastExplicit?
  rw [List.reverse_cons, List.findSome?_append, List.findSome?_singleton, Option.or_assoc]

/-- What a run of writes does to a key, from the first write on. -/
theorem get?_applyAll (start : NodeOutputs) (writes : List Write) (k : String) :
    (start.applyAll writes).get? k =
      (lastExplicit? start writes k).or (firstOffered? writes k) := by
  induction writes generalizing start with
  | nil =>
    show start.get? k = ((none : Option Json).or (start.get? k)).or none
    rw [Option.none_or, Option.or_none]
  | cons w writes ih =>
    have hoffered : firstOffered? (w :: writes) k =
        (w.offered? k).or (firstOffered? writes k) := by
      unfold firstOffered?
      rw [List.findSome?_cons]
      cases w.offered? k with
      | none => rfl
      | some v => rfl
    calc (start.applyAll (w :: writes)).get? k
        = (lastExplicit? (w.apply start) writes k).or (firstOffered? writes k) := ih _
      _ = ((writes.reverse.findSome? (Write.explicit? k)).or
            (((w.explicit? k).or (start.get? k)).or (w.offered? k))).or
            (firstOffered? writes k) := by rw [lastExplicit?, get?_apply]
      _ = (lastExplicit? start (w :: writes) k).or (firstOffered? (w :: writes) k) := by
        rw [lastExplicit?_cons, hoffered]
        simp only [Option.or_assoc]

theorem sorted_applyAll {start : NodeOutputs} (h : Fields.Sorted start.entries)
    (writes : List Write) : Fields.Sorted (start.applyAll writes).entries := by
  induction writes generalizing start with
  | nil => exact h
  | cons w writes ih =>
    apply ih
    have hadd (name : String) (value : Json) :
        Fields.Sorted (start.addAlias name value).1.entries := by
      unfold addAlias
      split
      · exact h
      · exact Fields.sorted_insert h name value
    cases w with
    | insert key value => exact Fields.sorted_insert h key value
    | addAlias name value => exact hadd name value
    | insertAliased id name value =>
      refine Fields.sorted_insert ?_ id value
      cases name with
      | none => exact h
      | some name =>
        dsimp only
        split
        · exact h
        · exact hadd name value

/-- An alias is added exactly when nothing is there before it. -/
theorem addAlias_eq_true_iff (outputs : NodeOutputs) (name : String) (value : Json) :
    (outputs.addAlias name value).2 = true ↔ outputs.get? name = none := by
  unfold addAlias
  rw [has_eq_isSome]
  cases outputs.get? name with
  | none => simp
  | some v => simp

/-- After any writes a key has the last value that was put there explicitly, or else the first one
that was offered for it as a name; an alias says whether it found the key free. -/
theorem explicit_wins_over_alias (start : NodeOutputs) (writes : List Write) (k : String) :
    (start.applyAll writes).get? k =
        (lastExplicit? start writes k).or (firstOffered? writes k) ∧
      ∀ value, ((start.applyAll writes).addAlias k value).2 = true ↔
        (start.applyAll writes).get? k = none :=
  ⟨get?_applyAll start writes k, addAlias_eq_true_iff _ k⟩

/-- An alias stays behind an explicit value that comes before it, and behind one that comes after. -/
example :
    (applyAll {} [.addAlias "a" (.bool true), .insertAliased "b" (some "a") (.bool false),
      .insertAliased "a" (some "b") .null, .addAlias "a" (.bool true)]).entries =
      [("a", .null), ("b", .bool false)] := by
  rfl

end Workflow.NodeOutputs
