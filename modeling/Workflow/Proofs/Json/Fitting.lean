import Workflow.Context
import Workflow.Proofs.Eval.Fitting
import Workflow.Proofs.Eval.PlainData

/-! Plain data whose texts and collections are no larger than the limits allow: it stays so when it
is read back from its text, as a value of an expression, and when such a value is written as plain
data again. -/
namespace Workflow

open Eval Limits

namespace Json

mutual

/-- The texts inside the data, keys among them, and its collections are no larger than allowed. -/
def fits (l : Limits) : Json → Bool
  | .string s => l.allowsText s
  | .array items => l.allowsLength items.length && itemsFit l items
  | .object entries => l.allowsLength entries.length && entriesFit l entries
  | .null | .bool _ | .number _ => true
termination_by structural j => j

def itemsFit (l : Limits) : List Json → Bool
  | [] => true
  | j :: rest => j.fits l && itemsFit l rest
termination_by structural items => items

def entriesFit (l : Limits) : List (String × Json) → Bool
  | [] => true
  | (key, j) :: rest => l.allowsText key && j.fits l && entriesFit l rest
termination_by structural entries => entries

end

variable {l : Limits}

theorem fits_array_iff {items : List Json} : (array items).fits l = true ↔
    items.length ≤ l.maxCollectionLength ∧ itemsFit l items = true := by
  rw [fits, Bool.and_eq_true, allowsLength_iff]

theorem fits_object_iff {entries : List (String × Json)} : (object entries).fits l = true ↔
    entries.length ≤ l.maxCollectionLength ∧ entriesFit l entries = true := by
  rw [fits, Bool.and_eq_true, allowsLength_iff]

theorem itemsFit_cons {j : Json} {rest : List Json} :
    itemsFit l (j :: rest) = true ↔ j.fits l = true ∧ itemsFit l rest = true := by
  rw [itemsFit, Bool.and_eq_true]

theorem entriesFit_cons {key : String} {j : Json} {rest : List (String × Json)} :
    entriesFit l ((key, j) :: rest) = true ↔
      (l.allowsText key = true ∧ j.fits l = true) ∧ entriesFit l rest = true := by
  rw [entriesFit, Bool.and_eq_true, Bool.and_eq_true]

theorem entriesFit_iff {entries : List (String × Json)} : entriesFit l entries = true ↔
    ∀ e ∈ entries, l.allowsText e.1 = true ∧ e.2.fits l = true := by
  induction entries with
  | nil => exact ⟨fun _ => List.forall_mem_nil _, fun _ => rfl⟩
  | cons e rest ih => rw [entriesFit_cons, List.forall_mem_cons, ih]

theorem fits_numberToJson (x : Float) : (Value.numberToJson x).fits l = true := by
  unfold Value.numberToJson
  split
  · split
    · split
      · rfl
      · rfl
    · rfl
  · rfl

mutual

theorem fits_reread? : ∀ {room : Nat} {j j' : Json}, j.reread? room = some j' → j.fits l = true →
    j'.fits l = true
  | room, .null, j', h, _ => by
    obtain rfl := Option.some.inj h
    rfl
  | room, .bool b, j', h, _ => by
    obtain rfl := Option.some.inj h
    rfl
  | room, .string s, j', h, hj => by
    obtain rfl := Option.some.inj h
    exact hj
  | room, .number n, j', h, _ => by
    obtain ⟨m, -, rfl⟩ := Option.map_eq_some_iff.1 h
    rfl
  | 0, .array items, j', h, _ => nomatch h
  | 0, .object entries, j', h, _ => nomatch h
  | room + 1, .array items, j', h, hj => by
    obtain ⟨items', hitems, rfl⟩ := Option.map_eq_some_iff.1 h
    obtain ⟨hlen, hall⟩ := fits_array_iff.1 hj
    obtain ⟨hsame, hfit⟩ := fits_rereadItems? hitems hall
    exact fits_array_iff.2 ⟨hsame ▸ hlen, hfit⟩
  | room + 1, .object entries, j', h, hj => by
    obtain ⟨entries', hentries, rfl⟩ := Option.map_eq_some_iff.1 h
    obtain ⟨hlen, hall⟩ := fits_object_iff.1 hj
    obtain ⟨hsame, hfit⟩ := fits_rereadEntries? hentries hall
    exact fits_object_iff.2 ⟨hsame ▸ hlen, hfit⟩
termination_by structural _ j => j

theorem fits_rereadItems? : ∀ {room : Nat} {items items' : List Json},
    rereadItems? room items = some items' → itemsFit l items = true →
      items'.length = items.length ∧ itemsFit l items' = true
  | room, [], items', h, _ => by
    obtain rfl := Option.some.inj h
    exact ⟨rfl, rfl⟩
  | room, j :: rest, items', h, hall => by
    obtain ⟨j', hj, h⟩ := Option.bind_eq_some_iff.1 h
    obtain ⟨rest', hrest, h⟩ := Option.bind_eq_some_iff.1 h
    obtain rfl := Option.some.inj h
    obtain ⟨hfirst, hall⟩ := itemsFit_cons.1 hall
    obtain ⟨hlen, hfit⟩ := fits_rereadItems? hrest hall
    exact ⟨congrArg (· + 1) hlen, itemsFit_cons.2 ⟨fits_reread? hj hfirst, hfit⟩⟩
termination_by structural _ items => items

theorem fits_rereadEntries? : ∀ {room : Nat} {entries entries' : List (String × Json)},
    rereadEntries? room entries = some entries' → entriesFit l entries = true →
      entries'.length = entries.length ∧ entriesFit l entries' = true
  | room, [], entries', h, _ => by
    obtain rfl := Option.some.inj h
    exact ⟨rfl, rfl⟩
  | room, (key, j) :: rest, entries', h, hall => by
    obtain ⟨j', hj, h⟩ := Option.bind_eq_some_iff.1 h
    obtain ⟨rest', hrest, h⟩ := Option.bind_eq_some_iff.1 h
    obtain rfl := Option.some.inj h
    obtain ⟨⟨hkey, hfirst⟩, hall⟩ := entriesFit_cons.1 hall
    obtain ⟨hlen, hfit⟩ := fits_rereadEntries? hrest hall
    exact ⟨congrArg (· + 1) hlen, entriesFit_cons.2 ⟨⟨hkey, fits_reread? hj hfirst⟩, hfit⟩⟩
termination_by structural _ entries => entries

end

end Json

namespace Eval.Value

variable {l : Limits}

mutual

theorem fits_ofJson (mark : Mark) : ∀ {j : Json}, j.fits l = true → (ofJson mark j).fits l = true
  | .null, _ => rfl
  | .bool b, _ => rfl
  | .number n, _ => rfl
  | .string s, h => h
  | .array items, h => by
    obtain ⟨hlen, hall⟩ := Json.fits_array_iff.1 h
    refine fits_array_iff.2 ⟨?_, fits_ofJsonItems mark 0 hall⟩
    rwa [length_ofJsonItems]
  | .object entries, h => by
    obtain ⟨hlen, hall⟩ := Json.fits_object_iff.1 h
    refine fits_object_iff.2 ⟨?_, fits_ofJsonEntries mark 0 hall⟩
    rwa [length_ofJsonEntries]
termination_by structural j => j

theorem fits_ofJsonItems (mark : Mark) : ∀ (i : Nat) {items : List Json},
    Json.itemsFit l items = true → ∀ v ∈ ofJsonItems mark i [] items, v.fits l = true
  | _, [], _ => List.forall_mem_nil _
  | i, j :: rest, h => by
    obtain ⟨hfirst, hall⟩ := Json.itemsFit_cons.1 h
    rw [ofJsonItems_cons]
    exact List.forall_mem_cons.2 ⟨fits_ofJson _ hfirst, fits_ofJsonItems mark (i + 1) hall⟩
termination_by structural _ items => items

theorem fits_ofJsonEntries (mark : Mark) : ∀ (i : Nat) {entries : List (String × Json)},
    Json.entriesFit l entries = true → ∀ e ∈ ofJsonEntries mark i [] entries, EntryFits l e
  | _, [], _ => List.forall_mem_nil _
  | i, (key, j) :: rest, h => by
    obtain ⟨⟨hkey, hfirst⟩, hall⟩ := Json.entriesFit_cons.1 h
    rw [ofJsonEntries_cons]
    refine List.forall_mem_cons.2 ⟨⟨hkey, fits_ofJson _ hfirst⟩, ?_⟩
    exact fits_ofJsonEntries mark (i + 1) hall
termination_by structural _ entries => entries

end

mutual

/-- The texts of the points in time inside the value are no larger than allowed. -/
def timesFit (l : Limits) : Value → Bool
  | .date t => l.allowsText t.isoText
  | .moment m => l.allowsText m.isoText
  | .array _ items => itemTimesFit l items
  | .object _ entries => entryTimesFit l entries
  | _ => true
termination_by structural v => v

def itemTimesFit (l : Limits) : List Value → Bool
  | [] => true
  | v :: rest => v.timesFit l && itemTimesFit l rest
termination_by structural items => items

def entryTimesFit (l : Limits) : List (String × Value) → Bool
  | [] => true
  | (_, v) :: rest => v.timesFit l && entryTimesFit l rest
termination_by structural entries => entries

end

mutual

theorem fits_toJson? {v : Value} {j : Json} (hv : v.fits l = true) (ht : v.timesFit l = true)
    (h : v.toJson? = some j) : j.fits l = true := by
  cases v with
  | undefined => cases h
  | space s => cases h
  | func f => cases h
  | null =>
    obtain rfl := Option.some.inj h
    rfl
  | bool b =>
    obtain rfl := Option.some.inj h
    rfl
  | number x =>
    obtain rfl := Option.some.inj h
    exact Json.fits_numberToJson x
  | string s =>
    obtain rfl := Option.some.inj h
    exact hv
  | date t =>
    obtain rfl := Option.some.inj h
    exact ht
  | moment m =>
    obtain rfl := Option.some.inj h
    exact ht
  | array mark items =>
    obtain rfl := Option.some.inj h
    obtain ⟨hlen, hall⟩ := fits_array_iff.1 hv
    obtain ⟨hsame, hfit⟩ := fits_itemsToJson hall ht
    exact Json.fits_array_iff.2 ⟨Nat.le_trans (Nat.le_of_eq hsame) hlen, hfit⟩
  | object mark entries =>
    obtain rfl := Option.some.inj h
    obtain ⟨hlen, hall⟩ := fits_object_iff.1 hv
    obtain ⟨hle, hfit⟩ := fits_entriesToJson hall ht
    exact Json.fits_object_iff.2 ⟨Nat.le_trans hle hlen, hfit⟩
termination_by structural v

theorem fits_itemsToJson : ∀ {items : List Value}, (∀ v ∈ items, v.fits l = true) →
    itemTimesFit l items = true →
      (itemsToJson [] items).length = items.length ∧ Json.itemsFit l (itemsToJson [] items) = true
  | [], _, _ => ⟨rfl, rfl⟩
  | v :: rest, h, ht => by
    obtain ⟨hv, hrest⟩ := List.forall_mem_cons.1 h
    obtain ⟨htime, ht⟩ := Bool.and_eq_true_iff.1 ht
    obtain ⟨hlen, hfit⟩ := fits_itemsToJson hrest ht
    have hfirst : (v.toJson?.getD .null).fits l = true := by
      cases hj : v.toJson? with
      | none => rfl
      | some j => exact fits_toJson? hv htime hj
    rw [itemsToJson_getD_cons]
    exact ⟨congrArg (· + 1) hlen, Json.itemsFit_cons.2 ⟨hfirst, hfit⟩⟩
termination_by structural items => items

/-- Entries that cannot be written are left out. -/
theorem fits_entriesToJson : ∀ {entries : List (String × Value)}, (∀ e ∈ entries, EntryFits l e) →
    entryTimesFit l entries = true →
      (entriesToJson [] entries).length ≤ entries.length ∧
        Json.entriesFit l (entriesToJson [] entries) = true
  | [], _, _ => ⟨Nat.le_refl _, rfl⟩
  | (key, v) :: rest, h, ht => by
    obtain ⟨⟨hkey, hv⟩, hrest⟩ := List.forall_mem_cons.1 h
    obtain ⟨htime, ht⟩ := Bool.and_eq_true_iff.1 ht
    obtain ⟨hle, hfit⟩ := fits_entriesToJson hrest ht
    cases hj : v.toJson? with
    | none =>
      rw [entriesToJson, hj]
      exact ⟨Nat.le_succ_of_le hle, hfit⟩
    | some j =>
      rw [entriesToJson_cons hj]
      exact ⟨Nat.succ_le_succ hle, Json.entriesFit_cons.2 ⟨⟨hkey, fits_toJson? hv htime hj⟩, hfit⟩⟩
termination_by structural entries => entries

end

end Eval.Value

end Workflow
