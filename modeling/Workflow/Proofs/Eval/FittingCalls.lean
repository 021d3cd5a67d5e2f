import Workflow.Proofs.Eval.Ensures
import Workflow.Proofs.Eval.TextParts

/-! The functions of the language on values that fit the limits. Those that check what they build,
and those that build nothing new, return such values, as long as their callbacks do. -/
namespace Workflow.Eval

/-- The functions that build texts or collections without a check, or with a check of something
else: the padding of texts counts characters, where the limit counts bytes. -/
def Func.isUnchecked : Func → Bool
  | .native f => [Native.decodeURIComponent, .decodeURI, .jsonParse, .objectKeys, .objectValues,
      .objectEntries, .objectFromEntries].contains f
  | .stringMethod _ m => [StringMethod.toUpperCase, .toLowerCase, .padStart, .padEnd].contains m
  | .numberMethod _ m => m != .valueOf
  | .dateMethod _ m => m == .iso
  | .momentMethod _ m => [MomentMethod.toFormat, .toISODate, .toISOTime, .toISO].contains m
  | _ => false

/-- So do the conversions to texts. -/
def Value.isUnchecked : Value → Bool
  | .func f => f.isUnchecked
  | .space s => s == .string || s == .date
  | _ => false

/-- Values that fit can be called with arguments that fit. -/
def CallsFit (s : Setting) (call : Caller) : Prop :=
  ∀ f args, Fits s f → (∀ v ∈ args, Fits s v) → Ensures s (Fits s) (call f args)

namespace Ensures

variable {s : Setting}

theorem callback {args : List Value} (ha : ∀ v ∈ args, Fits s v) (i : Nat) (role : String) :
    Ensures s (Fits s) (callback args i role) := by
  unfold Eval.callback
  dsimp only
  split
  · exact pure (fits_arg ha i)
  · exact fail

theorem to_object {v : Value} (hv : Fits s v) : Ensures s (Fits s) (toObject v) := by
  unfold toObject
  split
  · exact pure hv
  · exact pure hv
  · exact free_object (Nat.zero_le _) (List.forall_mem_nil _)

theorem to_array {args : List Value} (ha : ∀ v ∈ args, Fits s v) :
    Ensures s (Fits s) (toArray args) := by
  unfold toArray
  split
  -- a single number is a length
  · split
    · exact fail
    · refine (reserve_items _).bind fun _ hlen => free_array ?_ fun v hv => ?_
      · rwa [List.length_replicate]
      · rw [List.eq_of_mem_replicate hv]
        rfl
  · exact new_array ha

theorem items_of {v : Value} (hv : Fits s v) :
    Ensures s (fun items => ∀ w ∈ items, Fits s w) (itemsOf v) := by
  unfold itemsOf
  split
  · exact pure (fits_array_iff.1 hv).2
  · rename_i text
    refine pure (fits_characters (s := text) ?_)
    rwa [Fits, fits_string] at hv
  · refine after fun _ => pure fun w hw => ?_
    rw [List.eq_of_mem_replicate hw]
    rfl
  · exact pure (List.forall_mem_nil _)

theorem stringify (args : List Value) : Ensures s (Fits s) (stringify args) := by
  unfold Eval.stringify
  split
  · exact pure rfl
  · exact new_string _

theorem convert {space : Namespace} (hu : (Value.space space).isUnchecked = false)
    {args : List Value} (ha : ∀ v ∈ args, Fits s v) : Ensures s (Fits s) (convert space args) := by
  cases space
  case array => exact to_array ha
  case object => exact to_object (fits_arg ha 0)
  case string | date => cases hu
  case number | boolean => exact pure rfl
  all_goals exact fail

/-- A moment that keeps its offset fits. -/
theorem moved {m : Time.Moment} (hm : m.NearUtc) {cause : Range} {o : Option Time.Moment}
    (h : ∀ m', o = some m' → m'.offset = m.offset) :
    Ensures s (Fits s) (do return .moment (← Eval.orOutOfRange cause o)) :=
  (orOutOfRange fun m' hm' => hm.of_offset_eq (h m' hm')).bind fun _ hm' =>
    pure (fits_moment_iff.2 hm')

/-- Whatever it is moved by, a moment keeps its offset. -/
theorem shift {m : Time.Moment} (hm : m.NearUtc) (duration : Value) (sign : Float) :
    Ensures s (Fits s) (shift m duration sign) := by
  unfold Eval.shift
  split
  · refine moved hm fun m' h => ?_
    obtain ⟨n, -, hn⟩ := Option.bind_eq_some_iff.1 h
    exact Time.Moment.offset_addMillis? hn
  · refine after fun amounts => ?_
    split
    · rename_i m' h
      exact pure (fits_moment_iff.2 (hm.of_offset_eq (Time.Moment.offset_shift h)))
    · exact fail
    · exact fail
  · exact fail

theorem moment_method {m : Time.Moment} (hm : m.NearUtc) {method : MomentMethod}
    (hu : (Func.momentMethod m method).isUnchecked = false) (args : List Value) :
    Ensures s (Fits s) (momentMethod m method args) := by
  cases method
  case plus | minus => exact shift hm _ _
  case startOf => exact after fun u => moved hm fun m' h => Time.Moment.offset_startOf? h
  case endOf => exact after fun u => moved hm fun m' h => Time.Moment.offset_endOf? h
  case setZone =>
    have hzone : Ensures s (fun z => (z.convert m.utc).NearUtc) (readZone (Value.arg args 0).display) :=
      look (orOutOfRange fun z h => Time.nearUtc_convert h m.utc)
    refine hzone.bind fun z hz => ?_
    exact pure (fits_moment_iff.2 hz)
  case toUTC => exact pure (fits_moment_iff.2 (Time.Moment.nearUtc_ofUtc _))
  case toFormat | toISODate | toISOTime | toISO => cases hu
  all_goals exact pure rfl

theorem split_text {text : String} (ht : s.limits.allowsText text) (args : List Value) :
    Ensures s (Fits s) (splitText text.toList args) := by
  unfold splitText
  dsimp only
  refine new_array fun v hv => ?_
  obtain ⟨part, hp, rfl⟩ := List.mem_map.1 hv
  have hpiece : part ∈ pieces text.toList (Value.arg args 0) := by
    split at hp
    · exact hp
    · exact List.mem_of_mem_take hp
  have hsublist := List.sublist_flatten_of_mem hpiece
  exact Limits.allowsText_of_sublist ht (hsublist.trans (flatten_pieces_sublist _ _))

/-- The bytes of the text are reckoned before it is built; the product is cut off far beyond every
limit. -/
theorem repeated (hl : s.limits.Roomy) (text : String) (v : Value) :
    Ensures s (Fits s) (repeated text v) := by
  unfold Eval.repeated
  dsimp only
  split
  · exact fail
  · refine (reserve_bytes _).bind fun _ hb => pure ?_
    have hmax := hl.string
    rw [Fits, fits_string, Limits.allowsText_iff]
    split
    · exact Nat.zero_le _
    · rw [Text.utf8ByteSize_join_replicate, Nat.mul_comm]
      omega

theorem concat_from {items args : List Value} (hi : ∀ v ∈ items, Fits s v)
    (ha : ∀ v ∈ args, Fits s v) :
    Ensures s (fun items => ∀ v ∈ items, Fits s v) (concatFrom items args) := by
  induction args generalizing items with
  | nil => exact pure hi
  | cons v args ih =>
    obtain ⟨hv, ha⟩ := List.forall_mem_cons.1 ha
    refine after fun _ => ih (fun w hw => ?_) ha
    split at hw
    · rcases List.mem_append.1 hw with hw | hw
      · exact hi w hw
      · exact (fits_array_iff.1 hv).2 w hw
    · rcases List.mem_append.1 hw with hw | hw
      · exact hi w hw
      · rwa [List.mem_singleton.1 hw]

section Loops

variable {once : List Value → EvalM Value} {rest : Nat → List Value}

/-- No more items are kept than there are. -/
theorem filter_from {done items : List Value} (hd : ∀ v ∈ done, Fits s v)
    (hi : ∀ v ∈ items, Fits s v) (i : Nat) :
    Ensures s (fun kept => kept.length ≤ done.length + items.length ∧ ∀ v ∈ kept, Fits s v)
      (filterFrom once rest i done items) := by
  induction items generalizing done i with
  | nil =>
    refine pure ⟨Nat.le_of_eq List.length_reverse, fun v hv => hd v (List.mem_reverse.1 hv)⟩
  | cons v items ih =>
    obtain ⟨hv, hi⟩ := List.forall_mem_cons.1 hi
    refine after fun w => ?_
    dsimp only
    split
    · refine (ih (List.forall_mem_cons.2 ⟨hv, hd⟩) hi _).mono fun kept ⟨hlen, h⟩ => ⟨?_, h⟩
      rw [List.length_cons] at hlen ⊢
      omega
    · refine (ih hd hi _).mono fun kept ⟨hlen, h⟩ => ⟨?_, h⟩
      rw [List.length_cons]
      omega

theorem search_from {items : List Value} (hi : ∀ v ∈ items, Fits s v) (wanted : Bool) (i : Nat) :
    Ensures s (fun found => ∀ p ∈ found, Fits s p.2) (searchFrom once rest wanted i items) := by
  induction items generalizing i with
  | nil => exact pure fun p hp => absurd hp (Option.not_mem_none p)
  | cons v items ih =>
    obtain ⟨hv, hi⟩ := List.forall_mem_cons.1 hi
    refine after fun w => ?_
    split
    · refine pure fun p hp => ?_
      rwa [← Option.some.inj hp]
    · exact ih hi _

theorem for_each_from (items : List Value) (i : Nat) :
    Ensures s (Fits s) (forEachFrom once rest i items) := by
  induction items generalizing i with
  | nil => exact pure rfl
  | cons v items ih => exact after fun _ => ih _

section

variable (ho : ∀ args, (∀ v ∈ args, Fits s v) → Ensures s (Fits s) (once args))
  (hr : ∀ i, ∀ v ∈ rest i, Fits s v)
include ho hr

/-- There are as many results as items. -/
theorem map_from {done items : List Value} (hd : ∀ v ∈ done, Fits s v)
    (hi : ∀ v ∈ items, Fits s v) (i : Nat) :
    Ensures s (fun results => results.length = done.length + items.length ∧
      ∀ v ∈ results, Fits s v) (mapFrom once rest i done items) := by
  induction items generalizing done i with
  | nil => exact pure ⟨List.length_reverse, fun v hv => hd v (List.mem_reverse.1 hv)⟩
  | cons v items ih =>
    obtain ⟨hv, hi⟩ := List.forall_mem_cons.1 hi
    refine (ho _ (List.forall_mem_cons.2 ⟨hv, hr i⟩)).bind fun w hw => ?_
    refine (ih (List.forall_mem_cons.2 ⟨hw, hd⟩) hi _).mono fun results ⟨hlen, h⟩ => ⟨?_, h⟩
    rw [hlen, List.length_cons, List.length_cons]
    omega

theorem reduce_from {items : List Value} (hi : ∀ v ∈ items, Fits s v) (i : Nat) {sum : Value}
    (hs : Fits s sum) : Ensures s (Fits s) (reduceFrom once rest i sum items) := by
  induction items generalizing i sum with
  | nil => exact pure hs
  | cons v items ih =>
    obtain ⟨hv, hi⟩ := List.forall_mem_cons.1 hi
    have ha : ∀ w ∈ sum :: v :: rest i, Fits s w :=
      List.forall_mem_cons.2 ⟨hs, List.forall_mem_cons.2 ⟨hv, hr i⟩⟩
    exact (ho _ ha).bind fun _ hw => ih hi _ hw

end

end Loops

section

variable {call : Caller}

theorem collect (hc : CallsFit s call) {args : List Value} (ha : ∀ v ∈ args, Fits s v) :
    Ensures s (Fits s) (collect call args) := by
  refine (items_of (fits_arg ha 0)).bind fun items hi => ?_
  refine (reserve_items _).bind fun _ hlen => ?_
  split
  · exact free_array hlen hi
  · refine (callback ha 1 _).bind fun f hf => ?_
    have hrest (i : Nat) : ∀ v ∈ [Value.ofNat i], Fits s v := List.forall_mem_singleton.2 rfl
    refine (map_from (hc f · hf) hrest (List.forall_mem_nil _) hi 0).bind fun results hm => ?_
    refine free_array ?_ hm.2
    rwa [hm.1, List.length_nil, Nat.zero_add]

theorem of_now {g : Time.Timestamp → Value} (hg : ∀ t, Fits s (g t)) :
    Ensures s (Fits s) (do return g (← read).now) :=
  look (pure (hg _))

theorem native (hc : CallsFit s call) (hl : s.limits.Roomy)
    (hroots : ∀ x v, named? s.roots x = some v → Fits s v)
    {f : Native} (hu : (Func.native f).isUnchecked = false) {args : List Value}
    (ha : ∀ v ∈ args, Fits s v) : Ensures s (Fits s) (f.apply call args) := by
  cases f
  case decodeURIComponent | decodeURI | jsonParse | objectKeys | objectValues | objectEntries |
      objectFromEntries => cases hu
  case encodeURIComponent | encodeURI | stringFromCharCode => exact new_string _
  case nodeHelper helper =>
    refine look (pure (fits_nodeHelper ?_ ha))
    cases hv : named? s.roots "$node" with
    | none => rfl
    | some v => exact hroots _ v hv
  case jsonStringify => exact stringify _
  case objectAssign =>
    refine (reserve_items _).bind fun _ hlen => free_object hlen fun e he => ?_
    obtain ⟨v, hv, he⟩ := List.mem_flatMap.1 (Fields.mem_of_mem_ofList he)
    exact fits_entriesOf hl (ha v hv) e he
  case arrayFrom => exact collect hc ha
  case arrayOf => exact new_array ha
  case arrayIsArray | numberIsInteger | numberIsFinite | numberIsNaN =>
    unfold Native.apply
    dsimp only
    split
    · exact pure rfl
    · exact pure rfl
  case dateNow => exact of_now (g := fun t => .number (Number.ofInt t.toMillis)) fun _ => rfl
  case dateTimeNow => exact of_now (g := fun t => .moment (.ofUtc t)) fun _ => rfl
  case dateTimeUtc =>
    unfold Native.apply
    dsimp only
    split
    · exact of_now (g := fun t => .moment (.ofUtc t)) fun _ => rfl
    · exact after fun _ => pure rfl
  case dateTimeFromISO =>
    refine (orOutOfRange fun m h => Time.nearUtc_parse? h).bind fun m hm => ?_
    exact pure (fits_moment_iff.2 hm)
  case dateTimeFromMillis => exact after fun _ => pure rfl
  case dateTimeFromJSDate =>
    unfold Native.apply
    dsimp only
    split
    · exact pure rfl
    · exact fail
  all_goals exact pure rfl

theorem fits_orMinusOne (i : Option Nat) : Fits s (orMinusOne i) := by
  cases i with
  | none => rfl
  | some i => rfl

theorem string_method (hl : s.limits.Roomy) {text : String} (ht : s.limits.allowsText text)
    {method : StringMethod} (hu : (Func.stringMethod text method).isUnchecked = false)
    (args : List Value) : Ensures s (Fits s) (stringMethod call text method args) := by
  have hpart {part : List Char} (hp : part.Sublist text.toList) :
      Fits s (.string (String.ofList part)) := Limits.allowsText_of_sublist ht hp
  cases method
  case toUpperCase | toLowerCase | padStart | padEnd => cases hu
  case trim => exact pure (hpart (Text.trim_sublist _))
  case trimStart => exact pure (hpart (List.dropWhile_sublist _))
  case trimEnd => exact pure (hpart (Text.trimEnd_sublist _))
  case slice => exact pure (hpart (between_sublist _ _ _))
  case substring => exact pure (hpart (between_sublist _ _ _))
  case split => exact split_text ht _
  case replace | replaceAll => exact after fun _ => new_string _
  case «repeat» => exact repeated hl _ _
  case concat => exact new_string _
  case charAt => exact pure (hpart (charAt?_sublist _ _))
  case «at» =>
    unfold stringMethod
    dsimp only
    split
    · rename_i c hc
      obtain ⟨i, -, hi⟩ := Option.bind_eq_some_iff.1 hc
      exact pure (allowsText_ofChar ht (List.mem_of_getElem? hi))
    · exact pure rfl
  case toString | valueOf => exact pure ht
  case indexOf | lastIndexOf => exact pure (fits_orMinusOne _)
  all_goals exact pure rfl

theorem sorted {args items : List Value} (hlen : items.length ≤ s.limits.maxCollectionLength)
    (hi : ∀ v ∈ items, Fits s v) : Ensures s (fun sorted => sorted.length ≤
      s.limits.maxCollectionLength ∧ ∀ v ∈ sorted, Fits s v)
      (comparison call args >>= fun behind => sortItems behind items) := by
  refine after fun behind => of_yields fun sorted h => ?_
  have hperm := perm_of_sort_items items sorted h
  refine ⟨by rwa [hperm.length_eq], fun v hv => hi v (hperm.mem_iff.1 hv)⟩

theorem array_method (hc : CallsFit s call) {mark : Mark} {items : List Value}
    (hlen : items.length ≤ s.limits.maxCollectionLength) (hi : ∀ v ∈ items, Fits s v)
    (method : ArrayMethod) {args : List Value} (ha : ∀ v ∈ args, Fits s v) :
    Ensures s (Fits s) (arrayMethod call mark items method args) := by
  have hself : Fits s (.array mark items) := fits_array_iff.2 ⟨hlen, hi⟩
  have hrest (i : Nat) : ∀ v ∈ [Value.ofNat i, .array mark items], Fits s v :=
    List.forall_mem_cons.2 ⟨rfl, List.forall_mem_singleton.2 hself⟩
  have hnil : ∀ v ∈ ([] : List Value), Fits s v := List.forall_mem_nil _
  cases method
  case map =>
    refine (callback ha 0 _).bind fun f hf => ?_
    exact (map_from (hc f · hf) hrest hnil hi 0).bind fun _ hm => new_array hm.2
  case flatMap =>
    refine (callback ha 0 _).bind fun f hf => ?_
    refine (map_from (hc f · hf) hrest hnil hi 0).bind fun _ hm => new_array fun v hv => ?_
    exact fits_flattenOnto 1 hnil hm.2 v (List.mem_reverse.1 hv)
  case filter =>
    refine after fun f => (filter_from hnil hi 0).bind fun kept hk => free_array ?_ hk.2
    have hle := hk.1
    rw [List.length_nil] at hle
    omega
  case find =>
    refine after fun f => (search_from hi _ 0).bind fun found hfound => pure ?_
    cases found with
    | none => rfl
    | some p => exact hfound p rfl
  case findIndex => exact after fun f => after fun found => pure (fits_orMinusOne _)
  case some | every => exact after fun f => after fun found => pure rfl
  case forEach => exact after fun f => for_each_from _ _
  case reduce =>
    refine (callback ha 0 _).bind fun f hf => ?_
    split
    -- with a start, and without one
    · rename_i start hstart
      exact reduce_from (hc f · hf) hrest hi 0 (ha start (List.mem_of_getElem? hstart))
    · obtain ⟨hv, hi⟩ := List.forall_mem_cons.1 hi
      exact reduce_from (hc f · hf) hrest hi 1 hv
    · exact fail
  case sort =>
    unfold arrayMethod
    dsimp only
    simp only [← bind_assoc]
    exact (sorted hlen hi).bind fun _ hs => free_array hs.1 hs.2
  case indexOf | lastIndexOf => exact pure (fits_orMinusOne _)
  case join | toString => exact after fun _ => new_string _
  case concat => exact (concat_from hi ha).bind fun _ hm => new_array hm
  case slice =>
    have hpart := between_sublist items (position (Value.arg args 0) items.length 0)
      (position (Value.arg args 1) items.length items.length)
    exact free_array (Nat.le_trans hpart.length_le hlen) fun v hv => hi v (hpart.subset hv)
  case reverse =>
    refine free_array ?_ fun v hv => hi v (List.mem_reverse.1 hv)
    rwa [List.length_reverse]
  case flat =>
    exact new_array fun v hv => fits_flattenOnto _ hnil hi v (List.mem_reverse.1 hv)
  case «at» =>
    refine pure ?_
    cases single? (Value.arg args 0) items.length with
    | none => rfl
    | some i => exact fits_of_getElem? hi i
  all_goals exact pure rfl

end

end Ensures

end Workflow.Eval
