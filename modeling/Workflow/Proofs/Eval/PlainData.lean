import Mathlib.Tactic.Common
import Workflow.Eval.Member
import Workflow.Json.Reread
import Workflow.Path
import Workflow.Proofs.Text.Decimal

/-! Plain data as values of expressions: what it becomes when it is written as JSON again, and what
its members are, also when it was read back from its text before. -/
namespace Workflow

open Eval Text

namespace Json

mutual

/-- The same value, its numbers read as doubles and written as JSON again. -/
def throughDoubles : Json → Json
  | .null => .null
  | .bool b => .bool b
  | .number n => Value.numberToJson n.toDouble
  | .string s => .string s
  | .array items => .array (throughDoublesItems items)
  | .object entries => .object (throughDoublesEntries entries)
termination_by structural j => j

def throughDoublesItems : List Json → List Json
  | [] => []
  | j :: rest => throughDoubles j :: throughDoublesItems rest
termination_by structural items => items

def throughDoublesEntries : List (String × Json) → List (String × Json)
  | [] => []
  | (key, j) :: rest => (key, throughDoubles j) :: throughDoublesEntries rest
termination_by structural entries => entries

end

/-- Reading an object back from its text keeps its keys. -/
theorem get?_rereadEntries? {room : Nat} {entries entries' : Fields Json}
    (hr : rereadEntries? room entries = some entries') (key : String) :
    (Fields.get? entries key).map (reread? room) = (Fields.get? entries' key).map some := by
  induction entries generalizing entries' with
  | nil =>
    obtain rfl := Option.some.inj hr
    rfl
  | cons e rest ih =>
    obtain ⟨key', j⟩ := e
    obtain ⟨w, hw, hr⟩ := Option.bind_eq_some_iff.1 hr
    obtain ⟨rest', hrest, hr⟩ := Option.bind_eq_some_iff.1 hr
    obtain rfl : (key', w) :: rest' = entries' := Option.some.inj hr
    unfold Fields.get? at ih ⊢
    rw [List.lookup_cons, List.lookup_cons]
    cases key == key' with
    | true => exact congrArg some hw
    | false => exact ih hrest

end Json

namespace Eval.Value

theorem ofJsonItems_eq_append (mark : Mark) (i : Nat) (done : List Value) (items : List Json) :
    ofJsonItems mark i done items = done.reverse ++ ofJsonItems mark i [] items := by
  induction items generalizing i done with
  | nil => simp only [ofJsonItems, List.reverse_nil, List.append_nil]
  | cons j rest ih =>
    rw [ofJsonItems, ih, ofJsonItems, ih (i + 1) [ofJson (mark.part i) j], List.reverse_cons,
      List.append_assoc]
    rfl

theorem ofJsonItems_cons (mark : Mark) (i : Nat) (j : Json) (rest : List Json) :
    ofJsonItems mark i [] (j :: rest) =
      ofJson (mark.part i) j :: ofJsonItems mark (i + 1) [] rest := by
  rw [ofJsonItems, ofJsonItems_eq_append]
  rfl

theorem ofJsonEntries_eq_append (mark : Mark) (i : Nat) (done : List (String × Value))
    (entries : List (String × Json)) :
    ofJsonEntries mark i done entries = done.reverse ++ ofJsonEntries mark i [] entries := by
  induction entries generalizing i done with
  | nil => simp only [ofJsonEntries, List.reverse_nil, List.append_nil]
  | cons e rest ih =>
    obtain ⟨key, j⟩ := e
    rw [ofJsonEntries, ih, ofJsonEntries, ih (i + 1) [(key, ofJson (mark.part i) j)],
      List.reverse_cons, List.append_assoc]
    rfl

theorem ofJsonEntries_cons (mark : Mark) (i : Nat) (key : String) (j : Json)
    (rest : List (String × Json)) :
    ofJsonEntries mark i [] ((key, j) :: rest) =
      (key, ofJson (mark.part i) j) :: ofJsonEntries mark (i + 1) [] rest := by
  rw [ofJsonEntries, ofJsonEntries_eq_append]
  rfl

theorem itemsToJson_eq_append (done : List Json) (items : List Value) :
    itemsToJson done items = done.reverse ++ itemsToJson [] items := by
  induction items generalizing done with
  | nil => simp only [itemsToJson, List.reverse_nil, List.append_nil]
  | cons v rest ih =>
    rw [itemsToJson, ih, itemsToJson, ih [v.toJson?.getD .null], List.reverse_cons,
      List.append_assoc]
    rfl

/-- Items that cannot be written become null. -/
theorem itemsToJson_getD_cons (v : Value) (rest : List Value) :
    itemsToJson [] (v :: rest) = v.toJson?.getD .null :: itemsToJson [] rest := by
  rw [itemsToJson, itemsToJson_eq_append]
  rfl

theorem itemsToJson_cons {v : Value} {j : Json} (h : v.toJson? = some j) (rest : List Value) :
    itemsToJson [] (v :: rest) = j :: itemsToJson [] rest := by
  rw [itemsToJson_getD_cons, h]
  rfl

theorem entriesToJson_eq_append (done : List (String × Json)) (entries : List (String × Value)) :
    entriesToJson done entries = done.reverse ++ entriesToJson [] entries := by
  induction entries generalizing done with
  | nil => simp only [entriesToJson, List.reverse_nil, List.append_nil]
  | cons e rest ih =>
    obtain ⟨key, v⟩ := e
    rw [entriesToJson, entriesToJson]
    cases v.toJson? with
    | none => exact ih done
    | some j =>
      dsimp only
      rw [ih, ih [(key, j)], List.reverse_cons, List.append_assoc]
      rfl

theorem entriesToJson_cons {key : String} {v : Value} {j : Json} (h : v.toJson? = some j)
    (rest : List (String × Value)) :
    entriesToJson [] ((key, v) :: rest) = (key, j) :: entriesToJson [] rest := by
  rw [entriesToJson, h]
  exact entriesToJson_eq_append _ _

mutual

theorem toJson?_ofJson (mark : Mark) (j : Json) :
    (ofJson mark j).toJson? = some j.throughDoubles := by
  cases j with
  | null => rfl
  | bool b => rfl
  | number n => rfl
  | string s => rfl
  | array items =>
    show some (Json.array _) = some (.array _)
    rw [itemsToJson_ofJsonItems mark 0 items]
  | object entries =>
    show some (Json.object _) = some (.object _)
    rw [entriesToJson_ofJsonEntries mark 0 entries]

theorem itemsToJson_ofJsonItems (mark : Mark) (i : Nat) (items : List Json) :
    itemsToJson [] (ofJsonItems mark i [] items) = Json.throughDoublesItems items := by
  cases items with
  | nil => rfl
  | cons j rest =>
    rw [ofJsonItems_cons, itemsToJson_cons (toJson?_ofJson (mark.part i) j),
      itemsToJson_ofJsonItems mark (i + 1) rest]
    rfl

theorem entriesToJson_ofJsonEntries (mark : Mark) (i : Nat) (entries : List (String × Json)) :
    entriesToJson [] (ofJsonEntries mark i [] entries) = Json.throughDoublesEntries entries := by
  cases entries with
  | nil => rfl
  | cons e rest =>
    obtain ⟨key, j⟩ := e
    rw [ofJsonEntries_cons, entriesToJson_cons (toJson?_ofJson (mark.part i) j),
      entriesToJson_ofJsonEntries mark (i + 1) rest]
    rfl

end

theorem length_ofJsonItems (mark : Mark) (i : Nat) (items : List Json) :
    (ofJsonItems mark i [] items).length = items.length := by
  induction items generalizing i with
  | nil => rfl
  | cons j rest ih => rw [ofJsonItems_cons, List.length_cons, ih, List.length_cons]

theorem length_ofJsonEntries (mark : Mark) (i : Nat) (entries : List (String × Json)) :
    (ofJsonEntries mark i [] entries).length = entries.length := by
  induction entries generalizing i with
  | nil => rfl
  | cons e rest ih =>
    obtain ⟨key, j⟩ := e
    rw [ofJsonEntries_cons, List.length_cons, ih, List.length_cons]

theorem getElem?_ofJsonItems (mark : Mark) (i : Nat) {items : List Json} {k : Nat} {j : Json}
    (h : items[k]? = some j) :
    (ofJsonItems mark i [] items)[k]? = some (ofJson (mark.part (i + k)) j) := by
  induction items generalizing i k with
  | nil => exact absurd h (by simp)
  | cons j' rest ih =>
    rw [ofJsonItems_cons]
    cases k with
    | zero =>
      obtain rfl : j' = j := by simpa using h
      rfl
    | succ k =>
      rw [List.getElem?_cons_succ, ih (i + 1) (by simpa using h), Nat.add_right_comm]
      rfl

theorem get?_ofJsonEntries (mark : Mark) (i : Nat) {entries : List (String × Json)} {key : String}
    {j : Json} (h : Fields.get? entries key = some j) :
    ∃ k, Fields.get? (ofJsonEntries mark i [] entries) key = some (ofJson (mark.part k) j) := by
  induction entries generalizing i with
  | nil => exact absurd h nofun
  | cons e rest ih =>
    obtain ⟨key', j'⟩ := e
    rw [ofJsonEntries_cons]
    unfold Fields.get? at h ih ⊢
    rw [List.lookup_cons] at h ⊢
    cases hk : key == key' with
    | true =>
      rw [hk] at h
      obtain rfl : j' = j := Option.some.inj h
      exact ⟨i, rfl⟩
    | false =>
      rw [hk] at h
      exact ih (i + 1) h

end Eval.Value

end Workflow
