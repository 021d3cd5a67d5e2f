import Workflow.Proofs.Eval.Callbacks
import Workflow.Proofs.Eval.FittingCalls
import Workflow.Proofs.Eval.Meter
import Workflow.Proofs.Eval.Size

/-! Results that are paid for. An evaluation charges for what it allocates; what its result is larger
by than was charged meanwhile is its credit, and charges and credits of steps add up. Functions of the
language charge for what they build, or return no more than parts of what they are given, but for
those that return texts, points in time or collections without charging for all of them, and those
that hand the same values to a callback more than once. -/
namespace Workflow.Eval

/-- The result is no larger than what is charged during the evaluation and `credit` together, and
what is charged stays within the budget. -/
def Pays {α : Type} (s : Setting) (size : α → Nat) (credit : Nat) (m : EvalM α) : Prop :=
  ∀ t a t', t.allocated ≤ s.limits.maxTotalElements → m s t = .ok a t' →
    size a + t.allocated ≤ t'.allocated + credit ∧ t'.allocated ≤ s.limits.maxTotalElements

/-- Nothing that was charged is given back. -/
abbrev Accrues {α : Type} (s : Setting) (m : EvalM α) : Prop :=
  Pays s (fun _ => 0) 0 m

namespace Pays

variable {α β : Type} {s : Setting} {size : α → Nat} {size' : β → Nat} {credit more : Nat}

theorem pure {a : α} (h : size a ≤ credit) : Pays s size credit (Pure.pure a) := by
  intro t b t' ht hb
  cases hb
  exact ⟨by omega, ht⟩

/-- As much as a result is large, it is credit for what is done with it. -/
theorem bind (more : Nat) {m : EvalM α} {f : α → EvalM β} (hm : Pays s size credit m)
    (hf : ∀ a, Yields m a → Pays s size' (size a + more) (f a)) :
    Pays s size' (credit + more) (m >>= f) := by
  intro t b t' ht h
  obtain ⟨a, t₁, ha, hb⟩ := exists_of_bind h
  obtain ⟨hfirst, ht₁⟩ := hm t a t₁ ht ha
  obtain ⟨hsecond, ht'⟩ := hf a ⟨s, t, t₁, ha⟩ t₁ b t' ht₁ hb
  exact ⟨by omega, ht'⟩

theorem mono {m : EvalM α} (hm : Pays s size credit m) (h : credit ≤ more) :
    Pays s size more m := by
  intro t a t' ht ha
  obtain ⟨hle, ht'⟩ := hm t a t' ht ha
  exact ⟨by omega, ht'⟩

/-- Without credit nothing is given back. -/
theorem accrues {m : EvalM α} (hm : Pays s size 0 m) : Accrues s m := by
  intro t a t' ht ha
  obtain ⟨hle, ht'⟩ := hm t a t' ht ha
  exact ⟨by dsimp only; omega, ht'⟩

theorem allocated_le {m : EvalM α} (hm : Accrues s m) {t t' : Meter} {a : α}
    (ht : t.allocated ≤ s.limits.maxTotalElements) (h : m s t = .ok a t') :
    t.allocated ≤ t'.allocated := by
  obtain ⟨hle, -⟩ := hm t a t' ht h
  rwa [Nat.zero_add, Nat.add_zero] at hle

/-- A result that is not counted is no credit. -/
theorem after {m : EvalM α} {f : α → EvalM β} (hm : Accrues s m)
    (hf : ∀ a, Pays s size' more (f a)) : Pays s size' more (m >>= f) := by
  have h := bind more hm fun a _ => (hf a).mono (Nat.le_add_left _ _)
  exact h.mono (Nat.le_of_eq (Nat.zero_add _))

theorem map {m : EvalM α} {g : α → β} (hm : Pays s size credit m)
    (h : ∀ a, size' (g a) ≤ size a) : Pays s size' credit (g <$> m) := by
  rw [map_eq_pure_bind]
  exact bind 0 hm fun a _ => pure (h a)

theorem fail {fault : Fault} : Pays s size credit (fail fault : EvalM α) :=
  fun _ _ _ _ h => nomatch h

theorem look {f : Setting → EvalM α} (hf : Pays s size credit (f s)) :
    Pays s size credit (read >>= f) :=
  hf

/-- A result that is never larger than the credit is paid for if nothing is given back. -/
theorem of_yields {m : EvalM α} (hm : Accrues s m) (h : ∀ a, Yields m a → size a ≤ credit) :
    Pays s size credit m := by
  intro t a t' ht ha
  have hle := allocated_le hm ht ha
  have hsize := h a ⟨s, t, t', ha⟩
  exact ⟨by omega, (hm t a t' ht ha).2⟩

/-- A step that charges for nothing. -/
theorem of_same {m : EvalM α} (h : ∀ t a t', m s t = .ok a t' → t'.allocated = t.allocated) :
    Accrues s m := by
  intro t a t' ht ha
  rw [h t a t' ha]
  exact ⟨Nat.le_of_eq (Nat.zero_add _), ht⟩

theorem deeper {cause : Nat → Excess} {m : EvalM α} (hm : Pays s size credit m) :
    Pays s size credit (deeper cause m) := by
  intro t a t' ht h
  obtain ⟨-, t₁, ha, rfl⟩ := exists_of_deeper h
  exact hm { t with ticks := t.ticks + 1, depth := t.depth + 1 } a t₁ ht ha

theorem calling {m : EvalM α} (hm : Pays s size credit m) : Pays s size credit (calling m) := by
  intro t a t' ht h
  obtain ⟨-, t₁, ha, rfl⟩ := exists_of_calling h
  exact hm { t with calls := t.calls + 1 } a t₁ ht ha

theorem tick : Accrues s tick := by
  refine of_same fun t a t' h => ?_
  rw [eq_of_tick h]

theorem check_length (length : Nat) : Accrues s (checkLength length) := by
  refine tick.after fun _ => of_same fun t a t' h => ?_
  simp only [run_bind, run_get_limits, run_ite, run_exceed, run_pure] at h
  split at h
  · cases h
  · cases h
    rfl

theorem check_bytes (bytes : Nat) : Accrues s (checkBytes bytes) := by
  refine of_same fun t a t' h => ?_
  rw [run_check_bytes] at h
  split at h
  · cases h
  · cases h
    rfl

theorem fresh_mark : Accrues s freshMark := by
  refine of_same fun t a t' h => ?_
  cases h
  rfl

end Pays

section

variable {s : Setting} (hs : s.limits.maxTotalElements < Number.maxSize)
include hs

namespace Pays

/-- Within a budget that is below the bound of sizes, sums are exact. -/
theorem charge (units : Nat) : Pays s (fun _ => units) 0 (charge units) := by
  intro t a t' ht h
  rw [run_charge] at h
  split at h
  · cases h
  · rename_i hle
    cases h
    -- a sum that was cut off would be above the budget
    have he : min (t.allocated + units) Number.maxSize = t.allocated + units := by omega
    exact ⟨by dsimp only; omega, Nat.le_of_not_lt hle⟩

theorem reserve_items (length : Nat) : Pays s (fun _ => length) 0 (reserveItems length) :=
  (check_length length).after fun _ => charge hs length

theorem reserve_bytes (bytes : Nat) : Pays s (fun _ => bytes) 0 (reserveBytes bytes) :=
  (check_bytes bytes).after fun _ => charge hs bytes

end Pays

theorem CallFree.accrues {α : Type} {m : EvalM α} (hm : CallFree m) : Accrues s m := by
  induction hm with
  | pure a => exact .pure (Nat.le_refl _)
  | bind _ _ ihm ihf => exact .after ihm ihf
  | fail _ => exact .fail
  | tick => exact .tick
  | checkLength length => exact .check_length length
  | checkBytes bytes => exact .check_bytes bytes
  | charge units => exact (Pays.charge hs units).accrues
  | freshMark => exact .fresh_mark
  | look _ _ ih => exact .look (ih s)

/-- Nothing is given back if calls give nothing back. -/
theorem CallsOnly.accrues {allowed : Value → List Value → Prop} {call : Caller}
    (hcall : ∀ f args, Accrues s (call f args)) {α : Type} {m : Caller → EvalM α}
    (hm : CallsOnly allowed m) : Accrues s (m call) := by
  induction hm with
  | free hm => exact hm.accrues hs
  | andThen _ _ ihm ihf => exact .bind 0 ihm fun a ha => ihf a ⟨call, ha⟩
  | call _ => exact hcall _ _
  | deeper _ _ ih => exact .deeper ih
  | calling _ ih => exact .calling ih

theorem call_value_accrues (fuel : Nat) (f : Value) (args : List Value) :
    Accrues s (callValue fuel f args) := by
  induction fuel generalizing f args with
  | zero => exact .fail
  | succ fuel ih => exact (calls_only_once f args).accrues hs ih

end

namespace Pays

variable {s : Setting} {n credit : Nat}

theorem free_array {items : List Value} (h : items.length + sizes n items ≤ credit) :
    Pays s (Value.size n) credit (freeArray items) :=
  fresh_mark.after fun _ => pure h

theorem free_object {entries : List (String × Value)}
    (h : entries.length + entrySizes n entries ≤ credit) :
    Pays s (Value.size n) credit (freeObject entries) := by
  refine fresh_mark.after fun mark => pure ?_
  have hlen := Fields.length_ofList_le entries
  have hsizes := entrySizes_ofList_le (n := n) entries
  rw [Value.size]
  omega

section

variable (hs : s.limits.maxTotalElements < Number.maxSize)
include hs

theorem new_string (text : String) : Pays s (Value.size n) 0 (newString text) :=
  bind 0 (reserve_bytes hs _) fun _ _ => pure (Nat.le_refl _)

theorem new_array {items : List Value} (h : sizes n items ≤ credit) :
    Pays s (Value.size n) credit (newArray items) := by
  have hall := bind credit (reserve_items hs items.length) fun _ _ =>
    free_array (s := s) (n := n) (Nat.add_le_add_left h items.length)
  exact hall.mono (Nat.le_of_eq (Nat.zero_add _))

end

end Pays

/-- The functions whose results can be larger than what they charge for and are given. -/
def Func.isUncharged : Func → Bool
  | .native f => [Native.decodeURIComponent, .decodeURI, .jsonParse, .objectKeys, .objectValues,
      .objectEntries, .objectAssign, .objectFromEntries, .arrayFrom, .dateTimeNow, .dateTimeUtc,
      .dateTimeFromISO, .dateTimeFromMillis, .dateTimeFromJSDate].contains f
  | .stringMethod _ m => [StringMethod.toUpperCase, .toLowerCase, .padStart, .padEnd].contains m
  | .arrayMethod _ _ m => [ArrayMethod.map, .flatMap, .reduce].contains m
  | .numberMethod _ m => m != .valueOf
  | .boolMethod _ m => m != .valueOf
  | .dateMethod _ _ => false
  | .momentMethod _ m => [MomentMethod.plus, .minus, .toFormat, .startOf, .endOf, .setZone, .toUTC,
      .toJSDate].contains m
  | .closure .. => true

/-- So can those of the conversions to texts. -/
def Value.isUncharged : Value → Bool
  | .func f => f.isUncharged
  | .space s => s == .string || s == .date
  | _ => false

namespace Pays

variable {s : Setting} {n : Nat}

theorem size_nodeHelper_le (h : NodeHelper) (outputs : Value) (args : List Value) :
    (h.apply outputs args).size n ≤ outputs.size n + sizes n args := by
  rcases nodeHelper_apply_cases h outputs args with
    ⟨b, he⟩ | he | he | ⟨mark, entries, name, rfl, he⟩
  · rw [he]
    exact Nat.zero_le _
  · rw [he]
    exact Nat.zero_le _
  · rw [he]
    exact Nat.le_trans (size_arg_le args 1) (Nat.le_add_left _ _)
  · have hle : (h.apply _ args).size n ≤ entrySizes n entries := size_lookup_le he
    rw [Value.size]
    omega

theorem moment_method {m : Time.Moment} {method : MomentMethod}
    (hu : (Func.momentMethod m method).isUncharged = false) (args : List Value) :
    Pays s (Value.size n) (momentBytes m) (momentMethod m method args) := by
  have hiso : m.isoText.utf8ByteSize ≤ momentBytes m :=
    utf8ByteSize_le_momentBytes List.mem_cons_self
  cases method
  case toISO => exact pure hiso
  case toISODate => exact pure (Nat.le_trans (utf8ByteSize_dateText_le m) hiso)
  case toISOTime => exact pure (Nat.le_trans (utf8ByteSize_timeText_le _) hiso)
  case toMillis | toSeconds | toUnixInteger => exact pure (Nat.zero_le _)
  all_goals cases hu

theorem of_sublist {text : String} {part : List Char} (h : part.Sublist text.toList) :
    Pays s (Value.size n) text.utf8ByteSize
      (Pure.pure (.string (String.ofList part)) : EvalM Value) := by
  refine pure ?_
  rw [Value.size, String.utf8ByteSize_ofList, ← String.utf8Len_toList]
  exact String.utf8Len_le_of_sublist h

section

variable (hs : s.limits.maxTotalElements < Number.maxSize)
include hs

theorem split_text (text : String) (args : List Value) :
    Pays s (Value.size n) text.utf8ByteSize (splitText text.toList args) := by
  have hsizes (parts : List (List Char)) :
      sizes n (parts.map fun part => .string (String.ofList part)) =
        (parts.map String.utf8Len).sum := by
    induction parts with
    | nil => rfl
    | cons part parts ih =>
      rw [List.map_cons, sizes, ih, List.map_cons, List.sum_cons, Value.size,
        String.utf8ByteSize_ofList]
  have hall : ((pieces text.toList (Value.arg args 0)).map String.utf8Len).sum ≤
      text.utf8ByteSize := by
    rw [← Text.utf8Len_flatten, ← String.utf8Len_toList]
    exact String.utf8Len_le_of_sublist (flatten_pieces_sublist _ _)
  unfold splitText
  dsimp only
  refine new_array hs ?_
  rw [hsizes]
  split
  · exact hall
  · refine Nat.le_trans ?_ hall
    exact ((List.take_sublist _ _).map String.utf8Len).sum_le_sum fun _ _ => Nat.zero_le _

/-- The charge is cut off at the bound of sizes, but no budget reaches that far. -/
theorem repeated (text : String) (v : Value) :
    Pays s (Value.size n) 0 (repeated text v) := by
  unfold Eval.repeated
  dsimp only
  split
  · exact fail
  · intro t w t' ht h
    obtain ⟨u, t₁, ha, hw⟩ := exists_of_bind h
    obtain ⟨hcharge, ht₁⟩ := reserve_bytes hs _ t u t₁ ht ha
    dsimp only at hcharge
    cases hw
    -- what was charged is below the bound, so that it is the product itself
    refine ⟨?_, ht₁⟩
    rw [Value.size]
    split
    · rw [String.utf8ByteSize_empty]
      omega
    · rw [Text.utf8ByteSize_join_replicate, Nat.mul_comm]
      omega

theorem stringify (args : List Value) : Pays s (Value.size n) 0 (stringify args) := by
  unfold Eval.stringify
  split
  · exact pure (Nat.zero_le _)
  · exact new_string hs _

theorem to_array (args : List Value) :
    Pays s (Value.size n) (sizes n args) (toArray args) := by
  unfold toArray
  split
  · split
    · exact fail
    · refine (bind 0 (reserve_items hs _) fun _ _ => free_array ?_).mono (Nat.zero_le _)
      rw [List.length_replicate, sizes_replicate_undefined]
  · exact new_array hs (Nat.le_refl _)

theorem convert {space : Namespace} (hu : (Value.space space).isUncharged = false)
    (args : List Value) : Pays s (Value.size n) (sizes n args) (convert space args) := by
  cases space
  case array => exact to_array hs args
  case object =>
    show Pays s _ _ (toObject (Value.arg args 0))
    have hfirst := size_arg_le (n := n) args 0
    unfold toObject
    split
    · exact pure hfirst
    · exact pure hfirst
    · exact free_object (Nat.zero_le _)
  case string | date => cases hu
  case number | boolean => exact pure (Nat.zero_le _)
  all_goals exact fail

theorem native (hn : ∀ v, named? s.roots "$node" = some v → v.size n ≤ n) (call : Caller)
    {f : Native} (hu : (Func.native f).isUncharged = false) (args : List Value) :
    Pays s (Value.size n) ((Func.native f).size n + sizes n args)
      (f.apply call args) := by
  cases f
  case encodeURIComponent | encodeURI | stringFromCharCode =>
    exact (new_string hs _).mono (Nat.zero_le _)
  case nodeHelper helper =>
    refine look (pure (Nat.le_trans (size_nodeHelper_le helper _ args) ?_))
    refine Nat.add_le_add_right ?_ _
    show _ ≤ n
    cases hv : named? s.roots "$node" with
    | none => exact Nat.zero_le _
    | some v => exact hn v hv
  case jsonStringify => exact (stringify hs args).mono (Nat.zero_le _)
  case arrayOf => exact (new_array hs (Nat.le_refl _)).mono (Nat.le_add_left _ _)
  case arrayIsArray | numberIsInteger | numberIsFinite | numberIsNaN =>
    unfold Native.apply
    dsimp only
    split
    · exact pure (Nat.zero_le _)
    · exact pure (Nat.zero_le _)
  case dateNow => exact look (pure (Nat.zero_le _))
  case decodeURIComponent | decodeURI | jsonParse | objectKeys | objectValues | objectEntries |
      objectAssign | objectFromEntries | arrayFrom | dateTimeNow | dateTimeUtc | dateTimeFromISO |
      dateTimeFromMillis | dateTimeFromJSDate => cases hu
  all_goals exact pure (Nat.zero_le _)

end

section Loops

variable {once : List Value → EvalM Value} (ho : ∀ args, Accrues s (once args))
  {rest : Nat → List Value}
include ho

theorem filter_from (done items : List Value) (i : Nat) :
    Pays s (fun kept => kept.length + sizes n kept)
      (done.length + sizes n done + (items.length + sizes n items))
      (filterFrom once rest i done items) := by
  induction items generalizing done i with
  | nil =>
    refine pure ?_
    rw [List.length_reverse, sizes_perm (List.reverse_perm done)]
    exact Nat.le_add_right _ _
  | cons v items ih =>
    refine after (ho _) fun w => ?_
    dsimp only
    split
    · refine (ih (v :: done) (i + 1)).mono ?_
      rw [List.length_cons, List.length_cons, sizes, sizes]
      omega
    · refine (ih done (i + 1)).mono ?_
      rw [List.length_cons, sizes]
      omega

theorem search_from (items : List Value) (wanted : Bool) (i : Nat) :
    Pays s (fun found => (found.map fun p => p.2.size n).getD 0) (sizes n items)
      (searchFrom once rest wanted i items) := by
  induction items generalizing i with
  | nil => exact pure (Nat.le_refl _)
  | cons v items ih =>
    refine after (ho _) fun w => ?_
    rw [sizes]
    split
    · exact pure (Nat.le_add_right _ _)
    · exact (ih (i + 1)).mono (Nat.le_add_left _ _)

theorem for_each_from (items : List Value) (i : Nat) :
    Pays s (Value.size n) 0 (forEachFrom once rest i items) := by
  induction items generalizing i with
  | nil => exact pure (Nat.le_refl _)
  | cons v items ih => exact after (ho _) fun _ => ih (i + 1)

end Loops

theorem concat_from (items args : List Value) :
    ∀ more, Yields (concatFrom items args) more →
      sizes n more ≤ sizes n items + sizes n args := by
  induction args generalizing items with
  | nil =>
    intro more h
    rw [eq_of_yields_pure h]
    exact Nat.le_add_right _ _
  | cons v args ih =>
    intro more h
    obtain ⟨u, -, h⟩ := yields_bind h
    refine Nat.le_trans (ih _ more h) ?_
    rw [sizes]
    split
    · rw [sizes_append, Value.size]
      omega
    · rw [sizes_append, sizes, sizes]
      omega

section

variable (hs : s.limits.maxTotalElements < Number.maxSize) {call : Caller}
  (hc : ∀ f args, Accrues s (call f args))
include hs hc

theorem string_method {text : String} {method : StringMethod}
    (hu : (Func.stringMethod text method).isUncharged = false) (args : List Value) :
    Pays s (Value.size n) text.utf8ByteSize (stringMethod call text method args) := by
  have hnew (m : EvalM String) (hm : Accrues s m) :
      Pays s (Value.size n) text.utf8ByteSize (m >>= newString) :=
    after hm fun out => (new_string hs out).mono (Nat.zero_le _)
  cases method
  case toUpperCase | toLowerCase | padStart | padEnd => cases hu
  case trim => exact of_sublist (Text.trim_sublist _)
  case trimStart => exact of_sublist (List.dropWhile_sublist _)
  case trimEnd => exact of_sublist (Text.trimEnd_sublist _)
  case slice => exact of_sublist (between_sublist _ _ _)
  case substring => exact of_sublist (between_sublist _ _ _)
  case charAt => exact of_sublist (charAt?_sublist _ _)
  case «at» =>
    unfold stringMethod
    dsimp only
    split
    · rename_i c hc
      obtain ⟨i, -, hi⟩ := Option.bind_eq_some_iff.1 hc
      refine pure ?_
      rw [← String.utf8Len_toList]
      exact size_ofChar_le (List.mem_of_getElem? hi)
    · exact pure (Nat.zero_le _)
  case split => exact split_text hs text args
  case replace =>
    have hcalls : CallsOnly anything fun call => replaceFirst call
        (Value.arg args 0).display.toList (Value.arg args 1) text.toList :=
      CallsOnly.replace_first _ _ fun _ => trivial
    exact hnew _ (hcalls.accrues hs hc)
  case replaceAll =>
    have hcalls : CallsOnly anything fun call => Eval.replaceAll call
        (Value.arg args 0).display.toList (Value.arg args 1) text.toList :=
      CallsOnly.replace_all _ _ fun _ => trivial
    exact hnew _ (hcalls.accrues hs hc)
  case «repeat» => exact (repeated hs text _).mono (Nat.zero_le _)
  case concat => exact (new_string hs _).mono (Nat.zero_le _)
  case toString | valueOf => exact pure (Nat.le_refl _)
  case indexOf | lastIndexOf =>
    refine pure ?_
    rw [size_orMinusOne]
    exact Nat.zero_le _
  all_goals exact pure (Nat.zero_le _)

theorem array_method {mark : Mark} {items : List Value} {method : ArrayMethod}
    (hu : (Func.arrayMethod mark items method).isUncharged = false) (args : List Value) :
    Pays s (Value.size n) (items.length + sizes n items + sizes n args)
      (arrayMethod call mark items method args) := by
  have hcallback (role : String) : Accrues s (callback args 0 role) :=
    (CallFree.callback _ _ _).accrues hs
  have hjoin (separator : String) : Pays s (Value.size n)
      (items.length + sizes n items + sizes n args)
      (joinFrom separator "" true items >>= newString) :=
    after ((CallFree.joinFrom _ _ _ _).accrues hs) fun out =>
      (new_string hs out).mono (Nat.zero_le _)
  have hsearch (f : Value) (wanted : Bool) :
      Accrues s (searchFrom (call f) (fun i => [.ofNat i, .array mark items]) wanted 0 items) := by
    have hcalls : CallsOnly anything fun call =>
        searchFrom (call f) (fun i => [.ofNat i, .array mark items]) wanted 0 items :=
      CallsOnly.search_from _ _ (fun _ _ _ => trivial) _
    exact hcalls.accrues hs hc
  cases method
  case map | flatMap | reduce => cases hu
  case filter =>
    refine after (hcallback _) fun f => ?_
    refine (bind (sizes n args) (filter_from (n := n) (hc f) [] items 0) fun kept _ => ?_).mono ?_
    · exact free_array (Nat.le_add_right _ _)
    · rw [List.length_nil, sizes]
      omega
  case find =>
    refine after (hcallback _) fun f => ?_
    refine (bind 0 (search_from (n := n) (hc f) items true 0) fun found _ => pure ?_).mono ?_
    · cases found with
      | none => exact Nat.zero_le _
      | some p => exact Nat.le_refl _
    · omega
  case findIndex =>
    refine after (hcallback _) fun f => after (hsearch f true) fun found => pure ?_
    rw [size_orMinusOne]
    exact Nat.zero_le _
  case some | every =>
    exact after (hcallback _) fun f => after (hsearch f _) fun found => pure (Nat.zero_le _)
  case forEach =>
    exact after (hcallback _) fun f => (for_each_from (hc f) items 0).mono (Nat.zero_le _)
  case sort =>
    unfold arrayMethod
    dsimp only
    simp only [← bind_assoc]
    have hsort : Pays s (fun sorted => sorted.length + sizes n sorted)
        (items.length + sizes n items)
        (comparison call args >>= fun behind => sortItems behind items) := by
      refine of_yields ((calls_only_sort mark items args).accrues hs hc) fun sorted h => ?_
      obtain ⟨behind, -, h⟩ := yields_bind h
      have hperm := perm_of_sort_items items sorted h
      rw [hperm.length_eq, sizes_perm hperm]
    exact bind (sizes n args) hsort fun sorted _ => free_array (Nat.le_add_right _ _)
  case indexOf | lastIndexOf =>
    refine pure ?_
    rw [size_orMinusOne]
    exact Nat.zero_le _
  case join | toString => exact hjoin _
  case concat =>
    have hconcat : Pays s (sizes n) (sizes n items + sizes n args)
        (concatFrom items args) :=
      of_yields ((CallFree.concatFrom _ _).accrues hs) (concat_from items args)
    refine (bind 0 hconcat fun more _ => new_array hs (Nat.le_refl _)).mono ?_
    omega
  case slice =>
    have hpart := between_sublist items (position (Value.arg args 0) items.length 0)
      (position (Value.arg args 1) items.length items.length)
    have hlen := hpart.length_le
    have hsizes := sizes_sublist (n := n) hpart
    refine free_array ?_
    unfold sliceOf
    dsimp only
    omega
  case reverse =>
    refine free_array ?_
    rw [List.length_reverse, sizes_perm (List.reverse_perm items)]
    exact Nat.le_add_right _ _
  case flat =>
    have hflat (depth : Nat) := sizes_flattenOnto_le (n := n) depth [] items
    refine new_array hs ?_
    rw [sizes_perm (List.reverse_perm _)]
    refine Nat.le_trans (hflat _) ?_
    rw [sizes]
    omega
  case «at» =>
    refine pure ?_
    cases single? (Value.arg args 0) items.length with
    | none => exact Nat.zero_le _
    | some i =>
      refine Nat.le_trans (size_getElem?_le items i) ?_
      omega
  all_goals exact pure (Nat.zero_le _)

end

end Pays

section

variable {s : Setting} {n : Nat} (hs : s.limits.maxTotalElements < Number.maxSize)
  (hn : ∀ v, named? s.roots "$node" = some v → v.size n ≤ n)
include hs hn

/-- Callee and arguments are the credit of a call, unless the function is one of the others. -/
theorem call_func_pays {call : Caller} (hc : ∀ f args, Accrues s (call f args)) {f : Func}
    (hu : f.isUncharged = false) (args : List Value) :
    Pays s (Value.size n) (f.size n + sizes n args) (callFunc call f args) := by
  cases f with
  | native f => exact Pays.native hs hn call hu args
  | stringMethod text method =>
    exact (Pays.string_method hs hc hu args).mono (Nat.le_add_right _ _)
  | arrayMethod mark items method => exact Pays.array_method hs hc hu args
  | numberMethod x method =>
    cases method
    case valueOf => exact .pure (Nat.zero_le _)
    all_goals cases hu
  | boolMethod b method =>
    cases method
    case valueOf => exact .pure (Nat.zero_le _)
    all_goals cases hu
  | dateMethod t method =>
    refine .pure ?_
    cases method
    case iso => exact Nat.le_add_right _ _
    all_goals exact Nat.zero_le _
  | momentMethod m method => exact (Pays.moment_method hu args).mono (Nat.le_add_right _ _)
  | closure params body env => cases hu

theorem call_value_pays (fuel : Nat) {callee : Value} (hu : callee.isUncharged = false)
    (args : List Value) : Pays s (Value.size n) (callee.size n + sizes n args)
      (callValue fuel callee args) := by
  cases fuel with
  | zero => exact .fail
  | succ fuel =>
    refine .after .tick fun _ => ?_
    split
    · exact call_func_pays hs hn (call_value_accrues hs fuel) hu args
    · split
      · exact (Pays.convert hs hu args).mono (Nat.le_add_left _ _)
      · exact .fail
    · exact .fail

end

end Workflow.Eval
