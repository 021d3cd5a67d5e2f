import Mathlib.Algebra.GroupWithZero.Nat
import Mathlib.Algebra.Order.BigOperators.Group.List
import Workflow.Proofs.Eval.Fitting
import Workflow.Proofs.Eval.PlainData

/-! How large plain data and values are, in the units that allocations are counted in: items,
entries, and bytes of text. Parts are no larger than the whole. -/
namespace Workflow

open Eval

namespace Json

mutual

/-- The items, entries, and bytes of text inside the data, keys among them. -/
def size : Json → Nat
  | .string s => s.utf8ByteSize
  | .array items => items.length + itemSizes items
  | .object entries => entries.length + entrySizes entries
  | .null | .bool _ | .number _ => 0
termination_by structural j => j

def itemSizes : List Json → Nat
  | [] => 0
  | j :: rest => j.size + itemSizes rest
termination_by structural items => items

def entrySizes : List (String × Json) → Nat
  | [] => 0
  | (key, j) :: rest => key.utf8ByteSize + j.size + entrySizes rest
termination_by structural entries => entries

end

theorem size_numberToJson (x : Float) : (Value.numberToJson x).size = 0 := by
  unfold Value.numberToJson
  split
  · split
    · split
      · rfl
      · rfl
    · rfl
  · rfl

mutual

theorem size_reread? : ∀ {room : Nat} {j j' : Json}, j.reread? room = some j' → j'.size = j.size
  | room, .null, j', h => by
    obtain rfl := Option.some.inj h
    rfl
  | room, .bool b, j', h => by
    obtain rfl := Option.some.inj h
    rfl
  | room, .string s, j', h => by
    obtain rfl := Option.some.inj h
    rfl
  | room, .number n, j', h => by
    obtain ⟨m, -, rfl⟩ := Option.map_eq_some_iff.1 h
    rfl
  | 0, .array items, j', h => nomatch h
  | 0, .object entries, j', h => nomatch h
  | room + 1, .array items, j', h => by
    obtain ⟨items', hitems, rfl⟩ := Option.map_eq_some_iff.1 h
    obtain ⟨hlen, hsizes⟩ := itemSizes_rereadItems? hitems
    rw [size, size, hlen, hsizes]
  | room + 1, .object entries, j', h => by
    obtain ⟨entries', hentries, rfl⟩ := Option.map_eq_some_iff.1 h
    obtain ⟨hlen, hsizes⟩ := entrySizes_rereadEntries? hentries
    rw [size, size, hlen, hsizes]
termination_by structural _ j => j

theorem itemSizes_rereadItems? : ∀ {room : Nat} {items items' : List Json},
    rereadItems? room items = some items' →
      items'.length = items.length ∧ itemSizes items' = itemSizes items
  | room, [], items', h => by
    obtain rfl := Option.some.inj h
    exact ⟨rfl, rfl⟩
  | room, j :: rest, items', h => by
    obtain ⟨j', hj, h⟩ := Option.bind_eq_some_iff.1 h
    obtain ⟨rest', hrest, h⟩ := Option.bind_eq_some_iff.1 h
    obtain rfl := Option.some.inj h
    obtain ⟨hlen, hsizes⟩ := itemSizes_rereadItems? hrest
    refine ⟨congrArg (· + 1) hlen, ?_⟩
    rw [itemSizes, itemSizes, size_reread? hj, hsizes]
termination_by structural _ items => items

theorem entrySizes_rereadEntries? : ∀ {room : Nat} {entries entries' : List (String × Json)},
    rereadEntries? room entries = some entries' →
      entries'.length = entries.length ∧ entrySizes entries' = entrySizes entries
  | room, [], entries', h => by
    obtain rfl := Option.some.inj h
    exact ⟨rfl, rfl⟩
  | room, (key, j) :: rest, entries', h => by
    obtain ⟨j', hj, h⟩ := Option.bind_eq_some_iff.1 h
    obtain ⟨rest', hrest, h⟩ := Option.bind_eq_some_iff.1 h
    obtain rfl := Option.some.inj h
    obtain ⟨hlen, hsizes⟩ := entrySizes_rereadEntries? hrest
    refine ⟨congrArg (· + 1) hlen, ?_⟩
    rw [entrySizes, entrySizes, size_reread? hj, hsizes]
termination_by structural _ entries => entries

end

end Json

namespace Eval

/-- The texts of a point in time: its own one, and those of its fields. -/
def momentTexts (m : Time.Moment) : List String :=
  [m.isoText, Time.offsetName m.offset, m.wall.date.monthName, Time.short m.wall.date.monthName,
    m.wall.date.weekdayName, Time.short m.wall.date.weekdayName]

def momentBytes (m : Time.Moment) : Nat :=
  ((momentTexts m).map String.utf8ByteSize).sum

theorem utf8ByteSize_le_momentBytes {m : Time.Moment} {s : String} (h : s ∈ momentTexts m) :
    s.utf8ByteSize ≤ momentBytes m :=
  List.le_sum_of_mem (List.mem_map_of_mem h)

section

-- what a function counts that looks at the outputs of nodes
variable (n : Nat)

mutual

/-- The items, entries and bytes of text inside the value. A method counts as much as its receiver,
a closure counts nothing. -/
def Value.size : Value → Nat
  | .string s => s.utf8ByteSize
  | .array _ items => items.length + sizes items
  | .object _ entries => entries.length + entrySizes entries
  | .date t => t.isoText.utf8ByteSize
  | .moment m => momentBytes m
  | .func f => f.size
  | _ => 0

def Func.size : Func → Nat
  | .native f => if f.isHelper then n else 0
  | .stringMethod s _ => s.utf8ByteSize
  | .arrayMethod _ items _ => items.length + sizes items
  | .dateMethod t _ => t.isoText.utf8ByteSize
  | .momentMethod m _ => momentBytes m
  | _ => 0

def sizes : List Value → Nat
  | [] => 0
  | v :: rest => v.size + sizes rest

def entrySizes : List (String × Value) → Nat
  | [] => 0
  | (key, v) :: rest => key.utf8ByteSize + v.size + entrySizes rest

end

end

variable {n : Nat}

theorem sizes_eq_sum (items : List Value) :
    sizes n items = (items.map (Value.size n)).sum := by
  induction items with
  | nil => rfl
  | cons v items ih => rw [sizes, List.map_cons, List.sum_cons, ih]

theorem sizes_append (items more : List Value) :
    sizes n (items ++ more) = sizes n items + sizes n more := by
  rw [sizes_eq_sum, sizes_eq_sum, sizes_eq_sum, List.map_append, List.sum_append]

theorem sizes_perm {items more : List Value} (h : items.Perm more) :
    sizes n items = sizes n more := by
  rw [sizes_eq_sum, sizes_eq_sum]
  exact (h.map _).sum_nat

theorem sizes_sublist {items more : List Value} (h : items.Sublist more) :
    sizes n items ≤ sizes n more := by
  rw [sizes_eq_sum, sizes_eq_sum]
  exact (h.map _).sum_le_sum fun _ _ => Nat.zero_le _

theorem size_le_of_mem {v : Value} {items : List Value} (h : v ∈ items) :
    v.size n ≤ sizes n items := by
  rw [sizes_eq_sum]
  exact List.le_sum_of_mem (List.mem_map_of_mem h)

theorem sizes_replicate_undefined (count : Nat) :
    sizes n (List.replicate count .undefined) = 0 := by
  induction count with
  | zero => rfl
  | succ count ih =>
    rw [List.replicate_succ, sizes, ih]
    rfl

theorem size_getElem?_le (items : List Value) (i : Nat) :
    (items[i]?.getD .undefined).size n ≤ sizes n items := by
  cases hi : items[i]? with
  | none => exact Nat.zero_le _
  | some v => exact size_le_of_mem (List.mem_of_getElem? hi)

theorem size_arg_le (args : List Value) (i : Nat) :
    (Value.arg args i).size n ≤ sizes n args := by
  unfold Value.arg
  rw [List.getD_eq_getElem?_getD]
  exact size_getElem?_le args i

theorem size_lookup_le {entries : List (String × Value)} {key : String} {v : Value}
    (h : entries.lookup key = some v) : v.size n ≤ entrySizes n entries := by
  induction entries with
  | nil => cases h
  | cons e rest ih =>
    obtain ⟨key', w⟩ := e
    rw [entrySizes]
    rw [List.lookup_cons] at h
    split at h
    · obtain rfl := Option.some.inj h
      omega
    · have hrest := ih h
      omega

theorem entrySizes_perm {entries more : List (String × Value)} (h : entries.Perm more) :
    entrySizes n entries = entrySizes n more := by
  induction h with
  | nil => rfl
  | cons e _ ih => rw [entrySizes, entrySizes, ih]
  | swap e e' rest =>
    simp only [entrySizes]
    omega
  | trans _ _ ih ih' => exact ih.trans ih'

/-- A map has no more than the entries that it is made of. -/
theorem entrySizes_ofList_le (entries : List (String × Value)) :
    entrySizes n (Fields.ofList entries) ≤ entrySizes n entries := by
  have hinsert (m : Fields Value) (key : String) (v : Value) :
      entrySizes n (Fields.insert m key v) ≤
        key.utf8ByteSize + v.size n + entrySizes n m := by
    induction m with
    | nil => exact Nat.le_refl _
    | cons e rest ih =>
      obtain ⟨key', w⟩ := e
      unfold Fields.insert
      split
      · exact Nat.le_refl _
      · split
        · simp only [entrySizes]
          omega
        · simp only [entrySizes]
          omega
  have hall (m : Fields Value) : entrySizes n (Fields.insertAll m entries) ≤
      entrySizes n m + entrySizes n entries := by
    induction entries generalizing m with
    | nil => exact Nat.le_refl _
    | cons e rest ih =>
      obtain ⟨key, v⟩ := e
      have hrest := ih (Fields.insert m key v)
      have hfirst := hinsert m key v
      rw [entrySizes]
      show entrySizes n (Fields.insertAll (Fields.insert m key v) rest) ≤ _
      omega
  have h := hall []
  rwa [entrySizes, Nat.zero_add] at h

theorem size_ofChar_le {s : List Char} {c : Char} (h : c ∈ s) :
    (Value.ofChar c).size n ≤ String.utf8Len s := by
  have hc := String.utf8Len_le_of_sublist (List.singleton_sublist.2 h)
  rwa [← String.utf8ByteSize_ofList] at hc

theorem size_orMinusOne (i : Option Nat) : (orMinusOne i).size n = 0 := by
  cases i with
  | none => rfl
  | some i => rfl

theorem sizes_flattenOnto_le (depth : Nat) (done items : List Value) :
    sizes n (flattenOnto depth done items) ≤ sizes n done + sizes n items := by
  induction depth generalizing done items with
  | zero =>
    rw [flattenOnto, sizes_append, sizes_perm (List.reverse_perm items), Nat.add_comm]
  | succ depth ih =>
    unfold flattenOnto
    induction items generalizing done with
    | nil => exact Nat.le_refl _
    | cons v items ihi =>
      refine Nat.le_trans (ihi _) ?_
      rw [sizes]
      dsimp only
      split
      · rename_i mark inner
        have hinner := ih done inner
        rw [Value.size]
        omega
      · rw [sizes]
        omega

theorem size_bind?_le {α : Type} {table : List (String × α)} {key : String} {method : α → Func}
    {bound : Nat} (h : ∀ m, (method m).size n ≤ bound) :
    (bind? table key method).size n ≤ bound := by
  unfold bind?
  split
  · exact h _
  · exact Nat.zero_le _

theorem size_momentField_le (m : Time.Moment) (f : MomentField) :
    (momentField m f).size n ≤ momentBytes m := by
  cases f
  case zoneName => exact utf8ByteSize_le_momentBytes (s := Time.offsetName _) (by simp [momentTexts])
  case monthLong => exact utf8ByteSize_le_momentBytes (by simp [momentTexts])
  case monthShort => exact utf8ByteSize_le_momentBytes (by simp [momentTexts])
  case weekdayLong => exact utf8ByteSize_le_momentBytes (by simp [momentTexts])
  case weekdayShort => exact utf8ByteSize_le_momentBytes (by simp [momentTexts])
  all_goals exact Nat.zero_le _

theorem size_arrayMember_le (mark : Mark) (items : List Value) (key : String) :
    (arrayMember mark items key).size n ≤ items.length + sizes n items := by
  unfold arrayMember
  split
  · rw [List.getD_eq_getElem?_getD]
    exact Nat.le_trans (size_getElem?_le items _) (Nat.le_add_left _ _)
  · split
    · exact Nat.zero_le _
    · exact size_bind?_le fun m => Nat.le_refl _

theorem size_stringMember_le (s key : String) :
    (stringMember s key).size n ≤ s.utf8ByteSize := by
  unfold stringMember
  split
  · split
    · rename_i c hc
      rw [← String.utf8Len_toList]
      exact size_ofChar_le (List.mem_of_getElem? hc)
    · exact Nat.zero_le _
  · split
    · exact Nat.zero_le _
    · exact size_bind?_le fun m => Nat.le_refl _

theorem size_spaceMember (s : Namespace) (key : String) :
    (spaceMember s key).size n = 0 := by
  unfold spaceMember
  split
  · rfl
  · split
    · rename_i f hf
      have hnot : ∀ e ∈ Native.members s, e.2.isHelper = false := by
        cases s
        all_goals decide
      show (if f.isHelper = true then n else 0) = 0
      rw [hnot _ (Fields.mem_of_lookup hf)]
      rfl
    · rfl

/-- A member is no larger than the value that it is read from. -/
theorem size_member_le (v : Value) (key : String) : (member v key).size n ≤ v.size n := by
  cases v with
  | object mark entries =>
    show ((Fields.get? entries key).getD .undefined).size n ≤ _
    cases he : Fields.get? entries key with
    | none => exact Nat.zero_le _
    | some w => exact Nat.le_trans (size_lookup_le he) (Nat.le_add_left _ _)
  | array mark items => exact size_arrayMember_le mark items key
  | string s => exact size_stringMember_le s key
  | number x => exact size_bind?_le fun m => Nat.le_refl _
  | bool b => exact size_bind?_le fun m => Nat.le_refl _
  | date t => exact size_bind?_le fun m => Nat.le_refl _
  | moment m =>
    unfold member
    dsimp only
    split
    · exact size_momentField_le m _
    · exact size_bind?_le fun method => Nat.le_refl _
  | space s => exact Nat.le_of_eq (size_spaceMember s key)
  | undefined => exact Nat.le_refl _
  | null => exact Nat.le_refl _
  | func f => exact Nat.zero_le _

namespace Value

mutual

theorem size_ofJson (mark : Mark) : ∀ j : Json, (ofJson mark j).size n = j.size
  | .null => rfl
  | .bool b => rfl
  | .number x => rfl
  | .string s => rfl
  | .array items => by
    rw [ofJson, Value.size, Json.size, length_ofJsonItems, sizes_ofJsonItems mark 0 items]
  | .object entries => by
    rw [ofJson, Value.size, Json.size, length_ofJsonEntries, entrySizes_ofJsonEntries mark 0 entries]
termination_by structural j => j

theorem sizes_ofJsonItems (mark : Mark) : ∀ (i : Nat) (items : List Json),
    sizes n (ofJsonItems mark i [] items) = Json.itemSizes items
  | _, [] => rfl
  | i, j :: rest => by
    rw [ofJsonItems_cons, sizes, Json.itemSizes, size_ofJson _ j,
      sizes_ofJsonItems mark (i + 1) rest]
termination_by structural _ items => items

theorem entrySizes_ofJsonEntries (mark : Mark) : ∀ (i : Nat) (entries : List (String × Json)),
    Eval.entrySizes n (ofJsonEntries mark i [] entries) = Json.entrySizes entries
  | _, [] => rfl
  | i, (key, j) :: rest => by
    rw [ofJsonEntries_cons, Eval.entrySizes, Json.entrySizes, size_ofJson _ j,
      entrySizes_ofJsonEntries mark (i + 1) rest]
termination_by structural _ entries => entries

end

mutual

/-- Written as plain data, a value does not get larger. -/
theorem size_toJson?_le {v : Value} {j : Json} (h : v.toJson? = some j) :
    j.size ≤ v.size n := by
  cases v with
  | undefined => cases h
  | space s => cases h
  | func f => cases h
  | null =>
    obtain rfl := Option.some.inj h
    exact Nat.le_refl _
  | bool b =>
    obtain rfl := Option.some.inj h
    exact Nat.le_refl _
  | number x =>
    obtain rfl := Option.some.inj h
    exact Nat.le_of_eq (Json.size_numberToJson x)
  | string s =>
    obtain rfl := Option.some.inj h
    exact Nat.le_refl _
  | date t =>
    obtain rfl := Option.some.inj h
    exact Nat.le_refl _
  | moment m =>
    obtain rfl := Option.some.inj h
    exact utf8ByteSize_le_momentBytes List.mem_cons_self
  | array mark items =>
    obtain rfl := Option.some.inj h
    obtain ⟨hlen, hsizes⟩ := sizes_itemsToJson_le items
    rw [Json.size, Value.size]
    omega
  | object mark entries =>
    obtain rfl := Option.some.inj h
    obtain ⟨hlen, hsizes⟩ := entrySizes_entriesToJson_le entries
    rw [Json.size, Value.size]
    omega
termination_by structural v

theorem sizes_itemsToJson_le : ∀ items : List Value,
    (itemsToJson [] items).length = items.length ∧
      Json.itemSizes (itemsToJson [] items) ≤ sizes n items
  | [] => ⟨rfl, Nat.le_refl _⟩
  | v :: rest => by
    obtain ⟨hlen, hsizes⟩ := sizes_itemsToJson_le rest
    have hfirst : (v.toJson?.getD .null).size ≤ v.size n := by
      cases hj : v.toJson? with
      | none => exact Nat.zero_le _
      | some j => exact size_toJson?_le hj
    rw [itemsToJson_getD_cons, Json.itemSizes, sizes]
    exact ⟨congrArg (· + 1) hlen, Nat.add_le_add hfirst hsizes⟩
termination_by structural items => items

theorem entrySizes_entriesToJson_le : ∀ entries : List (String × Value),
    (entriesToJson [] entries).length ≤ entries.length ∧
      Json.entrySizes (entriesToJson [] entries) ≤ Eval.entrySizes n entries
  | [] => ⟨Nat.le_refl _, Nat.le_refl _⟩
  | (key, v) :: rest => by
    obtain ⟨hlen, hsizes⟩ := entrySizes_entriesToJson_le rest
    cases hj : v.toJson? with
    | none =>
      rw [entriesToJson, hj, Eval.entrySizes]
      exact ⟨Nat.le_succ_of_le hlen, Nat.le_trans hsizes (Nat.le_add_left _ _)⟩
    | some j =>
      have hfirst := size_toJson?_le hj
      rw [entriesToJson_cons hj, Json.entrySizes, Eval.entrySizes]
      exact ⟨Nat.succ_le_succ hlen, by omega⟩
termination_by structural entries => entries

end

end Value

end Eval

end Workflow
