import Workflow.Proofs.Eval.Blind
import Workflow.Proofs.Expr.TextsRead
import Workflow.Proofs.Text.Decimal
import Workflow.Proofs.Time.Offset

/-! Values whose texts and collections are no larger than the limits allow, the ones that functions
hold on to included. Parts of such values are such values, and so is what is put together from a few
of them. -/
namespace Workflow

namespace Limits

def allowsText (l : Limits) (s : String) : Bool :=
  s.utf8ByteSize ≤ l.maxStringLength

def allowsLength (l : Limits) (length : Nat) : Bool :=
  length ≤ l.maxCollectionLength

/-- The limits are sizes, and there is room for a text of some bytes, as the words of the language
and the positions in a collection are. -/
structure Roomy (l : Limits) : Prop where
  words : 20 ≤ l.maxStringLength
  string : l.maxStringLength < Number.maxSize
  collection : l.maxCollectionLength ≤ Number.maxSize

theorem allowsText_iff {l : Limits} {s : String} :
    l.allowsText s = true ↔ s.utf8ByteSize ≤ l.maxStringLength :=
  decide_eq_true_iff

theorem allowsLength_iff {l : Limits} {length : Nat} :
    l.allowsLength length = true ↔ length ≤ l.maxCollectionLength :=
  decide_eq_true_iff

/-- Short texts are allowed. -/
theorem Roomy.allows {l : Limits} (h : l.Roomy) {s : String} (hs : s.utf8ByteSize ≤ 20) :
    l.allowsText s = true :=
  allowsText_iff.2 (Nat.le_trans hs h.words)

/-- A part of a text is allowed if the text is. -/
theorem allowsText_of_sublist {l : Limits} {s : String} (h : l.allowsText s = true)
    {part : List Char} (hp : part.Sublist s.toList) : l.allowsText (String.ofList part) = true := by
  rw [allowsText_iff] at h ⊢
  rw [String.utf8ByteSize_ofList]
  exact Nat.le_trans (String.utf8Len_le_of_sublist hp) (Nat.le_trans (Nat.le_of_eq
    (String.utf8Len_toList s)) h)

end Limits

namespace Eval

open Limits

mutual

/-- The texts inside the value, keys among them, and its collections are no larger than allowed. -/
def Value.fits (l : Limits) : Value → Bool
  | .string s => l.allowsText s
  | .array _ items => l.allowsLength items.length && fitItems l items
  | .object _ entries =>
    l.allowsLength entries.length && (entries.all fun e => l.allowsText e.1) && fitEntries l entries
  | .moment m => m.offset.natAbs < 86400
  | .func f => f.fits l
  | _ => true

def Func.fits (l : Limits) : Func → Bool
  | .stringMethod s _ => l.allowsText s
  | .arrayMethod _ items _ => l.allowsLength items.length && fitItems l items
  | .momentMethod m _ => m.offset.natAbs < 86400
  | .closure _ body env => (body.texts.all fun x => l.allowsText x.text) && fitEntries l env
  | _ => true

def fitItems (l : Limits) : List Value → Bool
  | [] => true
  | v :: rest => v.fits l && fitItems l rest

def fitEntries (l : Limits) : List (String × Value) → Bool
  | [] => true
  | (_, v) :: rest => v.fits l && fitEntries l rest

end

variable {l : Limits}

theorem fitItems_iff {items : List Value} : fitItems l items = true ↔ ∀ v ∈ items, v.fits l := by
  induction items with
  | nil => exact ⟨fun _ => List.forall_mem_nil _, fun _ => rfl⟩
  | cons v rest ih => rw [fitItems, Bool.and_eq_true, List.forall_mem_cons, ih]

theorem fitEntries_iff {entries : List (String × Value)} :
    fitEntries l entries = true ↔ ∀ e ∈ entries, e.2.fits l := by
  induction entries with
  | nil => exact ⟨fun _ => List.forall_mem_nil _, fun _ => rfl⟩
  | cons e rest ih => rw [fitEntries, Bool.and_eq_true, List.forall_mem_cons, ih]

theorem fits_array_iff {mark : Mark} {items : List Value} : (Value.array mark items).fits l = true ↔
    items.length ≤ l.maxCollectionLength ∧ ∀ v ∈ items, v.fits l := by
  rw [Value.fits, Bool.and_eq_true, allowsLength_iff, fitItems_iff]

/-- An entry whose key and value are no larger than allowed. -/
def EntryFits (l : Limits) (e : String × Value) : Prop :=
  l.allowsText e.1 = true ∧ e.2.fits l = true

theorem fits_object_iff {mark : Mark} {entries : List (String × Value)} :
    (Value.object mark entries).fits l = true ↔
      entries.length ≤ l.maxCollectionLength ∧ ∀ e ∈ entries, EntryFits l e := by
  rw [Value.fits, Bool.and_eq_true, Bool.and_eq_true, allowsLength_iff, fitEntries_iff,
    List.all_eq_true, and_assoc]
  exact and_congr_right fun _ => ⟨fun ⟨hk, hv⟩ e he => ⟨hk e he, hv e he⟩,
    fun h => ⟨fun e he => (h e he).1, fun e he => (h e he).2⟩⟩

theorem fits_arrayMethod_iff {mark : Mark} {items : List Value} {m : ArrayMethod} :
    (Value.func (.arrayMethod mark items m)).fits l = true ↔
      items.length ≤ l.maxCollectionLength ∧ ∀ v ∈ items, v.fits l := by
  rw [Value.fits, Func.fits, Bool.and_eq_true, allowsLength_iff, fitItems_iff]

theorem fits_closure_iff {params : List String} {body : Expr} {env : Env} :
    (Value.func (.closure params body env)).fits l = true ↔
      (∀ x ∈ body.texts, l.allowsText x.text) ∧ ∀ e ∈ env, e.2.fits l := by
  rw [Value.fits, Func.fits, Bool.and_eq_true, List.all_eq_true, fitEntries_iff]

theorem fits_string {s : String} : (Value.string s).fits l = l.allowsText s := by
  rw [Value.fits]

theorem fits_moment_iff {m : Time.Moment} : (Value.moment m).fits l = true ↔ m.NearUtc := by
  rw [Value.fits, decide_eq_true_iff, Time.Moment.NearUtc]

theorem fits_of_getElem? {items : List Value} (h : ∀ v ∈ items, v.fits l) (i : Nat) :
    (items[i]?.getD .undefined).fits l := by
  cases hi : items[i]? with
  | none => rfl
  | some v => exact h v (List.mem_of_getElem? hi)

theorem fits_arg {args : List Value} (h : ∀ v ∈ args, v.fits l) (i : Nat) :
    (Value.arg args i).fits l := by
  unfold Value.arg
  rw [List.getD_eq_getElem?_getD]
  exact fits_of_getElem? h i

theorem utf8Len_of_digits {s : List Char} (h : ∀ c ∈ s, Number.isDigit c = true) :
    String.utf8Len s = s.length := by
  induction s with
  | nil => rfl
  | cons c s ih =>
    obtain ⟨hc, hs⟩ := List.forall_mem_cons.1 h
    have hsize : c.utf8Size = 1 := by
      obtain ⟨-, hle⟩ := Text.toNat_of_isDigit hc
      have hval : c.val ≤ 0x7f := by
        show c.val.toNat ≤ 127
        have : c.val.toNat = c.toNat := rfl
        omega
      unfold Char.utf8Size
      exact if_pos hval
    rw [String.utf8Len_cons, List.length_cons, ih hs, hsize]

/-- A position in a collection has at most twenty digits. -/
theorem utf8ByteSize_position {n : Nat} (h : n ≤ Number.maxSize) :
    (toString n).utf8ByteSize ≤ 20 := by
  rw [← String.utf8Len_toList, utf8Len_of_digits fun c => Text.isDigit_of_mem_toString,
    Text.toList_toString]
  refine (Nat.length_toDigits_le_iff (by decide) (by decide)).2 (Nat.lt_of_le_of_lt h ?_)
  decide

theorem length_le_utf8ByteSize (s : String) : s.toList.length ≤ s.utf8ByteSize := by
  rw [← String.utf8Len_toList]
  exact Lexer.length_le_utf8Len _

theorem allowsText_ofChar {s : String} (h : l.allowsText s) {c : Char} (hc : c ∈ s.toList) :
    (Value.ofChar c).fits l := by
  have hp := allowsText_of_sublist h (List.singleton_sublist.2 hc)
  rw [Value.ofChar, fits_string]
  exact hp

theorem fits_characters {s : String} (h : l.allowsText s) : ∀ v ∈ characters s, v.fits l := by
  intro v hv
  obtain ⟨c, hc, rfl⟩ := List.mem_map.1 hv
  exact allowsText_ofChar h hc

section

variable (hl : l.Roomy)
include hl

/-- Positions are allowed as keys. -/
theorem fits_mapIdx {items : List Value} (h : ∀ v ∈ items, v.fits l)
    (hlen : items.length ≤ Number.maxSize) :
    ∀ e ∈ items.mapIdx fun i v => (toString i, v), EntryFits l e := by
  intro e he
  obtain ⟨i, hi, rfl⟩ := List.mem_mapIdx.1 he
  refine ⟨hl.allows (utf8ByteSize_position ?_), h _ (List.getElem_mem hi)⟩
  omega

theorem fits_entriesOf {v : Value} (h : v.fits l) : ∀ e ∈ entriesOf v, EntryFits l e := by
  unfold entriesOf
  split
  · exact (fits_object_iff.1 h).2
  · obtain ⟨hlen, hitems⟩ := fits_array_iff.1 h
    exact fits_mapIdx hl hitems (Nat.le_trans hlen hl.collection)
  · rename_i s
    rw [fits_string] at h
    refine fits_mapIdx hl (fits_characters h) ?_
    have hbytes := length_le_utf8ByteSize s
    have hs := allowsText_iff.1 h
    have hmax := hl.string
    rw [characters, List.length_map]
    omega
  · exact List.forall_mem_nil _

end

theorem fits_flattenOnto (depth : Nat) {done items : List Value} (hd : ∀ v ∈ done, v.fits l)
    (hi : ∀ v ∈ items, v.fits l) : ∀ v ∈ flattenOnto depth done items, v.fits l :=
  forall_flattenOnto (fun _ _ h => (fits_array_iff.1 h).2) depth hd hi

theorem fits_bind? {α : Type} {table : List (String × α)} {key : String} {method : α → Func}
    (h : ∀ m, (Value.func (method m)).fits l) : (bind? table key method).fits l := by
  unfold bind?
  split
  · exact h _
  · rfl

theorem fits_arrayMember {mark : Mark} {items : List Value} (h : (Value.array mark items).fits l)
    (key : String) : (arrayMember mark items key).fits l := by
  unfold arrayMember
  split
  · rw [List.getD_eq_getElem?_getD]
    exact fits_of_getElem? (fits_array_iff.1 h).2 _
  · split
    · rfl
    · exact fits_bind? fun m => fits_arrayMethod_iff.2 (fits_array_iff.1 h)

theorem fits_stringMember {s : String} (h : l.allowsText s) (key : String) :
    (stringMember s key).fits l := by
  unfold stringMember
  split
  · split
    · rename_i c hc
      exact allowsText_ofChar h (List.mem_of_getElem? hc)
    · rfl
  · split
    · rfl
    · exact fits_bind? fun m => h

theorem fits_spaceMember (s : Namespace) (key : String) : (spaceMember s key).fits l := by
  unfold spaceMember
  split
  · rfl
  · split
    · rfl
    · rfl

theorem fits_nodeHelper {h : NodeHelper} {nodes : Value} {args : List Value} (hn : nodes.fits l)
    (ha : ∀ v ∈ args, v.fits l) : (h.apply nodes args).fits l := by
  rcases nodeHelper_apply_cases h nodes args with ⟨b, he⟩ | he | he | ⟨mark, entries, name, rfl, he⟩
  · rw [he]
    rfl
  · rw [he]
    rfl
  · rw [he]
    exact fits_arg ha 1
  · exact ((fits_object_iff.1 hn).2 _ (Fields.mem_of_lookup he)).2

section

variable (hl : l.Roomy)
include hl

theorem fits_momentField {m : Time.Moment} (hm : m.NearUtc) (f : MomentField) :
    (momentField m f).fits l := by
  have hmonths : ∀ name ∈ Time.monthNames ++ [""], name.utf8ByteSize ≤ 20 ∧
      (Time.short name).utf8ByteSize ≤ 20 := by decide
  have hdays : ∀ name ∈ Time.weekdayNames ++ [""], name.utf8ByteSize ≤ 20 ∧
      (Time.short name).utf8ByteSize ≤ 20 := by decide
  have hmem {names : List String} (i : Nat) : names.getD i "" ∈ names ++ [""] := by
    rw [List.getD_eq_getElem?_getD]
    cases hi : names[i]? with
    | none => exact List.mem_append_right _ List.mem_cons_self
    | some name => exact List.mem_append_left _ (List.mem_of_getElem? hi)
  cases f
  case zoneName => exact hl.allows (Time.utf8ByteSize_offsetName hm)
  case monthLong => exact hl.allows (hmonths _ (hmem _)).1
  case monthShort => exact hl.allows (hmonths _ (hmem _)).2
  case weekdayLong => exact hl.allows (hdays _ (hmem _)).1
  case weekdayShort => exact hl.allows (hdays _ (hmem _)).2
  all_goals rfl

theorem fits_member {v : Value} (h : v.fits l) (key : String) : (member v key).fits l := by
  cases v with
  | object mark entries =>
    show ((Fields.get? entries key).getD .undefined).fits l = true
    cases he : Fields.get? entries key with
    | none => rfl
    | some w => exact ((fits_object_iff.1 h).2 _ (Fields.mem_of_lookup he)).2
  | array mark items => exact fits_arrayMember h key
  | string s => exact fits_stringMember (by rwa [fits_string] at h) key
  | number x => exact fits_bind? fun m => rfl
  | bool b => exact fits_bind? fun m => rfl
  | date t => exact fits_bind? fun m => rfl
  | moment m =>
    unfold member
    dsimp only
    split
    · exact fits_momentField hl (fits_moment_iff.1 h) _
    · exact fits_bind? fun method => h
  | space s => exact fits_spaceMember s key
  | undefined => rfl
  | null => rfl
  | func f => rfl

end

end Eval

end Workflow
