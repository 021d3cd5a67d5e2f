import Workflow.Context
import Workflow.Proofs.Eval.PlainData
import Workflow.Proofs.Eval.Shallow

/-! How deep plain data is nested: as deep as the value that it becomes, and no deeper than the value
that it is written from. -/
namespace Workflow

open Eval

namespace Json

theorem nesting_numberToJson (x : Float) : (Value.numberToJson x).nesting = 0 := by
  unfold Value.numberToJson
  split
  · split
    · split
      · rfl
      · rfl
    · rfl
  · rfl

mutual

theorem nesting_reread? : ∀ {room : Nat} {j j' : Json}, j.reread? room = some j' →
    j'.nesting = j.nesting
  | room, .null, j', h => by
    obtain rfl := Option.some.inj h
    rfl
  | room, .bool b, j', h => by
    obtain rfl := Option.some.inj h
    rfl
  | room, .string s, j', h => by
    obtain rfl := Option.some.inj h
    rfl
  | room, .number n, j', h => by
    obtain ⟨m, -, rfl⟩ := Option.map_eq_some_iff.1 h
    rfl
  | 0, .array items, j', h => nomatch h
  | 0, .object entries, j', h => nomatch h
  | room + 1, .array items, j', h => by
    obtain ⟨items', hitems, rfl⟩ := Option.map_eq_some_iff.1 h
    rw [nesting, nesting, nestingList_rereadItems? hitems]
  | room + 1, .object entries, j', h => by
    obtain ⟨entries', hentries, rfl⟩ := Option.map_eq_some_iff.1 h
    rw [nesting, nesting, nestingEntries_rereadEntries? hentries]
termination_by structural _ j => j

theorem nestingList_rereadItems? : ∀ {room : Nat} {items items' : List Json},
    rereadItems? room items = some items' → nestingList items' = nestingList items
  | room, [], items', h => by
    obtain rfl := Option.some.inj h
    rfl
  | room, j :: rest, items', h => by
    obtain ⟨j', hj, h⟩ := Option.bind_eq_some_iff.1 h
    obtain ⟨rest', hrest, h⟩ := Option.bind_eq_some_iff.1 h
    obtain rfl := Option.some.inj h
    rw [nestingList, nestingList, nesting_reread? hj, nestingList_rereadItems? hrest]
termination_by structural _ items => items

theorem nestingEntries_rereadEntries? : ∀ {room : Nat} {entries entries' : List (String × Json)},
    rereadEntries? room entries = some entries' → nestingEntries entries' = nestingEntries entries
  | room, [], entries', h => by
    obtain rfl := Option.some.inj h
    rfl
  | room, (key, j) :: rest, entries', h => by
    obtain ⟨j', hj, h⟩ := Option.bind_eq_some_iff.1 h
    obtain ⟨rest', hrest, h⟩ := Option.bind_eq_some_iff.1 h
    obtain rfl := Option.some.inj h
    rw [nestingEntries, nestingEntries, nesting_reread? hj, nestingEntries_rereadEntries? hrest]
termination_by structural _ entries => entries

end

theorem nesting_le_of_mem_entries {entries : List (String × Json)} {e : String × Json}
    (h : e ∈ entries) : e.2.nesting ≤ nestingEntries entries := by
  induction entries with
  | nil => cases h
  | cons f rest ih =>
    rw [nestingEntries]
    rcases List.mem_cons.1 h with rfl | h
    · exact Nat.le_max_left _ _
    · exact Nat.le_trans (ih h) (Nat.le_max_right _ _)

end Json

namespace Eval.Value

mutual

theorem nesting_ofJson (mark : Mark) : ∀ j : Json, (ofJson mark j).nesting = j.nesting
  | .null => rfl
  | .bool b => rfl
  | .number n => rfl
  | .string s => rfl
  | .array items => by rw [ofJson, nesting, Json.nesting, itemsNesting_ofJsonItems mark 0 items]
  | .object entries => by
    rw [ofJson, nesting, Json.nesting, entriesNesting_ofJsonEntries mark 0 entries]
termination_by structural j => j

theorem itemsNesting_ofJsonItems (mark : Mark) : ∀ (i : Nat) (items : List Json),
    itemsNesting (ofJsonItems mark i [] items) = Json.nestingList items
  | _, [] => rfl
  | i, j :: rest => by
    rw [ofJsonItems_cons, itemsNesting, Json.nestingList, nesting_ofJson _ j,
      itemsNesting_ofJsonItems mark (i + 1) rest]
termination_by structural _ items => items

theorem entriesNesting_ofJsonEntries (mark : Mark) : ∀ (i : Nat) (entries : List (String × Json)),
    entriesNesting (ofJsonEntries mark i [] entries) = Json.nestingEntries entries
  | _, [] => rfl
  | i, (key, j) :: rest => by
    rw [ofJsonEntries_cons, entriesNesting, Json.nestingEntries, nesting_ofJson _ j,
      entriesNesting_ofJsonEntries mark (i + 1) rest]
termination_by structural _ entries => entries

end

mutual

theorem nesting_toJson?_le {v : Value} {j : Json} (h : v.toJson? = some j) :
    j.nesting ≤ v.nesting := by
  cases v with
  | undefined => cases h
  | space s => cases h
  | func f => cases h
  | null =>
    obtain rfl := Option.some.inj h
    exact Nat.le_refl _
  | bool b =>
    obtain rfl := Option.some.inj h
    exact Nat.le_refl _
  | number x =>
    obtain rfl := Option.some.inj h
    exact Nat.le_of_eq (Json.nesting_numberToJson x)
  | string s =>
    obtain rfl := Option.some.inj h
    exact Nat.le_refl _
  | date t =>
    obtain rfl := Option.some.inj h
    exact Nat.le_refl _
  | moment m =>
    obtain rfl := Option.some.inj h
    exact Nat.le_refl _
  | array mark items =>
    obtain rfl := Option.some.inj h
    exact Nat.succ_le_succ (nestingList_itemsToJson_le items)
  | object mark entries =>
    obtain rfl := Option.some.inj h
    exact Nat.succ_le_succ (nestingEntries_entriesToJson_le entries)
termination_by structural v

theorem nestingList_itemsToJson_le : ∀ items : List Value,
    Json.nestingList (itemsToJson [] items) ≤ itemsNesting items
  | [] => Nat.le_refl _
  | v :: rest => by
    have hrest := nestingList_itemsToJson_le rest
    have hfirst : (v.toJson?.getD .null).nesting ≤ v.nesting := by
      cases hj : v.toJson? with
      | none => exact Nat.zero_le _
      | some j => exact nesting_toJson?_le hj
    rw [itemsToJson_getD_cons, Json.nestingList, itemsNesting]
    omega
termination_by structural items => items

theorem nestingEntries_entriesToJson_le : ∀ entries : List (String × Value),
    Json.nestingEntries (entriesToJson [] entries) ≤ entriesNesting entries
  | [] => Nat.le_refl _
  | (key, v) :: rest => by
    have hrest := nestingEntries_entriesToJson_le rest
    rw [entriesNesting]
    cases hj : v.toJson? with
    | none =>
      rw [entriesToJson, hj]
      exact Nat.le_trans hrest (Nat.le_max_right _ _)
    | some j =>
      have hfirst := nesting_toJson?_le hj
      rw [entriesToJson_cons hj, Json.nestingEntries]
      omega
termination_by structural entries => entries

end

end Eval.Value

end Workflow
