import Workflow.Eval.Run
import Workflow.Proofs.Eval.Blind
import Workflow.Proofs.Eval.Meter

/-! Evaluations that a root of the context does not affect: they run the same in two settings that
differ in nothing but that root, and yield what cannot see it. So do the functions and methods of the
language on values that cannot see the root, as long as it does not affect their callbacks. -/
namespace Workflow.Eval

/-- The settings differ at most in the values of names of the root, and no value of a name sees it. -/
structure SameBut (r : ContextRoot) (s s' : Setting) : Prop where
  limits : s.limits = s'.limits
  now : s.now = s'.now
  elapsed : s.elapsed = s'.elapsed
  zones : s.zones = s'.zones
  roots : ∀ x, x ∉ r.names → named? s.roots x = named? s'.roots x
  blind : ∀ x v, named? s.roots x = some v → v.Blind r

/-- The evaluation runs the same in both settings, and its results have a property. -/
def Unaffected {α : Type} (s s' : Setting) (post : α → Prop) (m : EvalM α) : Prop :=
  ∀ t, m s t = m s' t ∧ ∀ a t', m s t = .ok a t' → post a

namespace Unaffected

variable {α β : Type} {s s' : Setting} {post : α → Prop}

/-- A fault is no result. -/
theorem of_error {fault : Fault} {t : Meter} {result : EStateM.Result Fault Meter α}
    (h : result = .error fault t) (a : α) (t' : Meter) (hr : result = .ok a t') : post a := by
  rw [h] at hr
  cases hr

theorem pure {a : α} (h : post a) : Unaffected s s' post (Pure.pure a) := by
  refine fun t => ⟨rfl, fun b t' hb => ?_⟩
  cases hb
  exact h

theorem bind {m : EvalM α} {f : α → EvalM β} {post' : β → Prop} (hm : Unaffected s s' post m)
    (hf : ∀ a, post a → Unaffected s s' post' (f a)) : Unaffected s s' post' (m >>= f) := by
  intro t
  obtain ⟨he, hp⟩ := hm t
  rw [run_bind, run_bind, ← he]
  cases hr : m s t with
  | ok a t' => exact hf a (hp a t' hr) t'
  | error fault t' => exact ⟨rfl, of_error rfl⟩

theorem map {m : EvalM α} {g : α → β} {post' : β → Prop} (hm : Unaffected s s' post m)
    (h : ∀ a, post a → post' (g a)) : Unaffected s s' post' (g <$> m) := by
  rw [map_eq_pure_bind]
  exact hm.bind fun a ha => pure (h a ha)

theorem someLink {r : ContextRoot} {m : EvalM Value} (hm : Unaffected s s' (Value.Blind r) m) :
    Unaffected s s' (Link.Blind r) (some <$> m) :=
  hm.map fun _ hv _ hw => Option.some.inj hw ▸ hv

theorem fail {fault : Fault} : Unaffected s s' post (fail fault : EvalM α) :=
  fun _ => ⟨rfl, of_error rfl⟩

theorem mismatch {cause : Mismatch} : Unaffected s s' post (mismatch cause : EvalM α) :=
  fail

theorem outOfRange {cause : Range} : Unaffected s s' post (outOfRange cause : EvalM α) :=
  fail

theorem orOutOfRange (cause : Range) (o : Option α) :
    Unaffected s s' (fun _ => True) (orOutOfRange cause o) := by
  cases o with
  | none => exact outOfRange
  | some a => exact pure trivial

/-- A look at the setting that does not tell the two apart. -/
theorem look {f : Setting → EvalM α} (he : f s = f s') (hf : Unaffected s s' post (f s)) :
    Unaffected s s' post (read >>= f) := by
  intro t
  rw [run_bind, run_bind, run_read, run_read]
  dsimp only
  rw [← he]
  exact hf t

theorem in_brackets {enter leave : Meter → Meter} {m : EvalM α} (hm : Unaffected s s' post m) :
    Unaffected s s' post (bracketed enter leave m) := by
  intro t
  obtain ⟨he, hp⟩ := hm (enter t)
  rw [run_bracketed, run_bracketed, ← he]
  cases hr : m s (enter t) with
  | ok a t' =>
    refine ⟨rfl, fun b t'' hb => ?_⟩
    cases hb
    exact hp a t' hr
  | error fault t' => exact ⟨rfl, of_error rfl⟩

theorem fresh_mark : Unaffected s s' (fun _ => True) freshMark :=
  fun _ => ⟨rfl, fun _ _ _ => trivial⟩

end Unaffected

namespace SameBut

variable {α : Type} {r : ContextRoot} {s s' : Setting} (h : SameBut r s s')
include h

theorem tick : Unaffected s s' (fun _ => True) tick := by
  refine fun t => ⟨?_, fun _ _ _ => trivial⟩
  rw [run_tick, run_tick, h.limits, h.elapsed]

theorem check_length (length : Nat) : Unaffected s s' (fun _ => True) (checkLength length) := by
  refine fun t => ⟨?_, fun _ _ _ => trivial⟩
  rw [run_check_length, run_check_length, (h.tick t).1, h.limits]

theorem check_bytes (bytes : Nat) : Unaffected s s' (fun _ => True) (checkBytes bytes) := by
  refine fun t => ⟨?_, fun _ _ _ => trivial⟩
  rw [run_check_bytes, run_check_bytes, h.limits]

theorem charge (units : Nat) : Unaffected s s' (fun _ => True) (charge units) := by
  refine fun t => ⟨?_, fun _ _ _ => trivial⟩
  rw [run_charge, run_charge, h.limits]

theorem reserve_items (length : Nat) : Unaffected s s' (fun _ => True) (reserveItems length) :=
  (h.check_length length).bind fun _ _ => h.charge length

theorem reserve_bytes (bytes : Nat) : Unaffected s s' (fun _ => True) (reserveBytes bytes) :=
  (h.check_bytes bytes).bind fun _ _ => h.charge bytes

theorem deeper {cause : Nat → Excess} {post : α → Prop} {m : EvalM α}
    (hm : Unaffected s s' post m) : Unaffected s s' post (deeper cause m) := by
  refine h.tick.bind fun _ _ => .in_brackets fun t => ?_
  simp only [run_bind, run_get_limits, run_get, run_ite, run_exceed]
  rw [h.limits]
  split
  · exact ⟨rfl, Unaffected.of_error rfl⟩
  · exact hm t

theorem calling {post : α → Prop} {m : EvalM α} (hm : Unaffected s s' post m) :
    Unaffected s s' post (calling m) := by
  intro t
  simp only [Eval.calling, run_bind, run_get_limits, run_get, run_ite, run_exceed]
  rw [h.limits]
  split
  · exact ⟨rfl, Unaffected.of_error rfl⟩
  · exact hm.in_brackets t

theorem as_value {m : EvalM Link} (hm : Unaffected s s' (Link.Blind r) m) :
    Unaffected s s' (Value.Blind r) (asValue m) := by
  refine h.deeper (hm.bind fun link hl => .pure ?_)
  cases link with
  | none => trivial
  | some v => exact hl v rfl

theorem as_link (isChain : Bool) {m : EvalM Link} (hm : Unaffected s s' (Link.Blind r) m) :
    Unaffected s s' (Link.Blind r) (asLink isChain m) := by
  cases isChain with
  | true =>
    show Unaffected s s' _ (Eval.deeper (fun _ => .chain) m)
    exact h.deeper hm
  | false => exact (h.as_value hm).someLink

theorem new_string (text : String) : Unaffected s s' (Value.Blind r) (newString text) :=
  (h.reserve_bytes _).bind fun _ _ => .pure trivial

omit h in
theorem free_array {items : List Value} (hi : ∀ v ∈ items, v.Blind r) :
    Unaffected s s' (Value.Blind r) (freeArray items) :=
  Unaffected.fresh_mark.bind fun _ _ => .pure (blind_array.2 hi)

theorem new_array {items : List Value} (hi : ∀ v ∈ items, v.Blind r) :
    Unaffected s s' (Value.Blind r) (newArray items) :=
  (h.reserve_items _).bind fun _ _ => free_array hi

omit h in
theorem free_object {entries : List (String × Value)} (he : ∀ e ∈ entries, e.2.Blind r) :
    Unaffected s s' (Value.Blind r) (freeObject entries) :=
  Unaffected.fresh_mark.bind fun _ _ => .pure (blind_object.2 (blind_ofList he))

end SameBut

namespace SameBut

variable {r : ContextRoot} {s s' : Setting} (h : SameBut r s s')

omit h in
theorem callback {args : List Value} (ha : ∀ v ∈ args, v.Blind r) (i : Nat) (role : String) :
    Unaffected s s' (Value.Blind r) (callback args i role) := by
  unfold Eval.callback
  dsimp only
  split
  · exact .pure (blind_arg ha i)
  · exact .mismatch

omit h in
theorem to_object {v : Value} (hv : v.Blind r) : Unaffected s s' (Value.Blind r) (toObject v) := by
  unfold toObject
  split
  · exact .pure hv
  · exact .pure hv
  · exact free_object (List.forall_mem_nil _)

section

include h

theorem to_array {args : List Value} (ha : ∀ v ∈ args, v.Blind r) :
    Unaffected s s' (Value.Blind r) (toArray args) := by
  unfold toArray
  split
  · split
    · exact .outOfRange
    · refine (h.reserve_items _).bind fun _ _ => free_array fun v hv => ?_
      rw [List.eq_of_mem_replicate hv]
      trivial
  · exact h.new_array ha

theorem items_of {v : Value} (hv : v.Blind r) :
    Unaffected s s' (fun items => ∀ w ∈ items, w.Blind r) (itemsOf v) := by
  unfold itemsOf
  split
  · exact .pure (blind_array.1 hv)
  · exact .pure (blind_characters _)
  · refine (h.check_length _).bind fun _ _ => .pure fun w hw => ?_
    rw [List.eq_of_mem_replicate hw]
    trivial
  · exact .pure (List.forall_mem_nil _)

theorem stringify (args : List Value) : Unaffected s s' (Value.Blind r) (stringify args) := by
  unfold Eval.stringify
  split
  · exact .pure trivial
  · exact h.new_string _

omit h in
theorem parse_json (text : String) : Unaffected s s' (Value.Blind r) (parseJson text) := by
  unfold parseJson
  split
  · exact Unaffected.fresh_mark.bind fun _ _ => .pure (blind_ofJson _ _)
  · exact .fail

omit h in
theorem decode_uri (keep : List Char) (text : String) :
    Unaffected s s' (Value.Blind r) (decodeUri keep text) := by
  unfold decodeUri
  split
  · exact .pure trivial
  · exact .fail

/-- The present time is the same in both settings. -/
theorem of_now {g : Time.Timestamp → Value} (hg : ∀ t, (g t).Blind r) :
    Unaffected s s' (Value.Blind r) (do return g (← read).now) := by
  refine .look ?_ (.pure (hg _))
  rw [h.now]

theorem convert (space : Namespace) {args : List Value} (ha : ∀ v ∈ args, v.Blind r) :
    Unaffected s s' (Value.Blind r) (convert space args) := by
  cases space
  case array => exact h.to_array ha
  case object => exact to_object (blind_arg ha 0)
  case date => exact h.of_now (g := fun t => .string t.isoText) fun _ => trivial
  case string | number | boolean => exact .pure trivial
  all_goals exact .mismatch

omit h in
theorem amounts (entries : List (String × Value)) (sign : Float) :
    Unaffected s s' (fun _ => True) (amounts entries sign) := by
  unfold Eval.amounts
  induction entries with
  | nil => exact .pure trivial
  | cons entry entries ih =>
    rw [List.mapM_cons]
    have hunit : Unaffected s s' (fun _ => True) (do
        return (← orOutOfRange .unit (Time.TimeUnit.ofName? entry.1), entry.2.toNumber * sign)) :=
      (Unaffected.orOutOfRange _ _).bind fun _ _ => .pure trivial
    exact hunit.bind fun _ _ => ih.bind fun _ _ => .pure trivial

omit h in
theorem shift (m : Time.Moment) (duration : Value) (sign : Float) :
    Unaffected s s' (Value.Blind r) (shift m duration sign) := by
  unfold Eval.shift
  split
  · exact (Unaffected.orOutOfRange _ _).bind fun _ _ => .pure trivial
  · refine (amounts _ _).bind fun amounts _ => ?_
    split
    · exact .pure trivial
    · exact .outOfRange
    · exact .outOfRange
  · exact .outOfRange

/-- So are the zones that have names. -/
theorem read_zone (name : String) : Unaffected s s' (fun _ => True) (readZone name) := by
  refine .look ?_ (.orOutOfRange _ _)
  rw [h.zones]

theorem moment_method (m : Time.Moment) (method : MomentMethod) (args : List Value) :
    Unaffected s s' (Value.Blind r) (momentMethod m method args) := by
  cases method
  case plus | minus => exact shift _ _ _
  case startOf | endOf =>
    exact (Unaffected.orOutOfRange _ _).bind fun _ _ =>
      (Unaffected.orOutOfRange _ _).bind fun _ _ => .pure trivial
  case setZone => exact (h.read_zone _).bind fun _ _ => .pure trivial
  all_goals exact .pure trivial

omit h in
theorem number_method (x : Float) (method : NumberMethod) (args : List Value) :
    Unaffected s s' (Value.Blind r) (numberMethod x method args) := by
  cases method
  case toFixed =>
    show Unaffected s s' _ (toFixed x _)
    unfold toFixed
    dsimp only
    split
    · exact .outOfRange
    · split
      · exact .pure trivial
      · exact .pure trivial
  case toString =>
    show Unaffected s s' _ (toRadix x _)
    unfold toRadix
    split
    · exact .pure trivial
    · dsimp only
      split
      · exact .outOfRange
      · exact .pure trivial
  all_goals exact .pure trivial

theorem split_text (text : List Char) (args : List Value) :
    Unaffected s s' (Value.Blind r) (splitText text args) := by
  refine h.new_array fun v hv => ?_
  obtain ⟨part, -, rfl⟩ := List.mem_map.1 hv
  trivial

theorem pad (inFront : Bool) (text : String) (args : List Value) :
    Unaffected s s' (Value.Blind r) (pad inFront text args) := by
  unfold Eval.pad
  extract_lets target fill length
  split
  · exact .pure trivial
  · exact (h.reserve_bytes _).bind fun _ _ => .pure trivial

theorem repeated (text : String) (v : Value) :
    Unaffected s s' (Value.Blind r) (repeated text v) := by
  unfold Eval.repeated
  dsimp only
  split
  · exact .outOfRange
  · exact (h.reserve_bytes _).bind fun _ _ => .pure trivial

theorem join_from (separator out : String) (first : Bool) (items : List Value) :
    Unaffected s s' (fun _ => True) (joinFrom separator out first items) := by
  induction items generalizing out first with
  | nil => exact .pure trivial
  | cons v items ih => exact (h.check_bytes _).bind fun _ _ => ih _ _

theorem concat_from {items args : List Value} (hi : ∀ v ∈ items, v.Blind r)
    (ha : ∀ v ∈ args, v.Blind r) :
    Unaffected s s' (fun items => ∀ v ∈ items, v.Blind r) (concatFrom items args) := by
  induction args generalizing items with
  | nil => exact .pure hi
  | cons v args ih =>
    obtain ⟨hv, ha⟩ := List.forall_mem_cons.1 ha
    refine (h.check_length _).bind fun _ _ => ih (fun w hw => ?_) ha
    split at hw
    · rcases List.mem_append.1 hw with hw | hw
      · exact hi w hw
      · exact blind_array.1 hv w hw
    · rcases List.mem_append.1 hw with hw | hw
      · exact hi w hw
      · rwa [List.mem_singleton.1 hw]

end

section

variable {call : Caller}

/-- Blind values can be called with blind arguments. -/
def CallsBlindly (r : ContextRoot) (s s' : Setting) (call : Caller) : Prop :=
  ∀ f args, f.Blind r → (∀ v ∈ args, v.Blind r) → Unaffected s s' (Value.Blind r) (call f args)

section Loops

variable {once : List Value → EvalM Value} {rest : Nat → List Value}
  (ho : ∀ args, (∀ v ∈ args, v.Blind r) → Unaffected s s' (Value.Blind r) (once args))
  (hr : ∀ i, ∀ v ∈ rest i, v.Blind r)
include ho hr

theorem map_from {done items : List Value} (hd : ∀ v ∈ done, v.Blind r)
    (hi : ∀ v ∈ items, v.Blind r) (i : Nat) :
    Unaffected s s' (fun items => ∀ v ∈ items, v.Blind r) (mapFrom once rest i done items) := by
  induction items generalizing done i with
  | nil => exact .pure fun v hv => hd v (List.mem_reverse.1 hv)
  | cons v items ih =>
    obtain ⟨hv, hi⟩ := List.forall_mem_cons.1 hi
    refine (ho _ (List.forall_mem_cons.2 ⟨hv, hr i⟩)).bind fun w hw => ?_
    exact ih (List.forall_mem_cons.2 ⟨hw, hd⟩) hi _

theorem filter_from {done items : List Value} (hd : ∀ v ∈ done, v.Blind r)
    (hi : ∀ v ∈ items, v.Blind r) (i : Nat) :
    Unaffected s s' (fun items => ∀ v ∈ items, v.Blind r) (filterFrom once rest i done items) := by
  induction items generalizing done i with
  | nil => exact .pure fun v hv => hd v (List.mem_reverse.1 hv)
  | cons v items ih =>
    obtain ⟨hv, hi⟩ := List.forall_mem_cons.1 hi
    refine (ho _ (List.forall_mem_cons.2 ⟨hv, hr i⟩)).bind fun w _ => ?_
    refine ih ?_ hi _
    split
    · exact List.forall_mem_cons.2 ⟨hv, hd⟩
    · exact hd

theorem search_from {items : List Value} (hi : ∀ v ∈ items, v.Blind r) (wanted : Bool) (i : Nat) :
    Unaffected s s' (fun found => ∀ p ∈ found, p.2.Blind r)
      (searchFrom once rest wanted i items) := by
  induction items generalizing i with
  | nil => exact .pure fun p hp => absurd hp (Option.not_mem_none p)
  | cons v items ih =>
    obtain ⟨hv, hi⟩ := List.forall_mem_cons.1 hi
    refine (ho _ (List.forall_mem_cons.2 ⟨hv, hr i⟩)).bind fun w _ => ?_
    split
    · refine .pure fun p hp => ?_
      rwa [← Option.some.inj hp]
    · exact ih hi _

theorem for_each_from {items : List Value} (hi : ∀ v ∈ items, v.Blind r) (i : Nat) :
    Unaffected s s' (Value.Blind r) (forEachFrom once rest i items) := by
  induction items generalizing i with
  | nil => exact .pure trivial
  | cons v items ih =>
    obtain ⟨hv, hi⟩ := List.forall_mem_cons.1 hi
    exact (ho _ (List.forall_mem_cons.2 ⟨hv, hr i⟩)).bind fun _ _ => ih hi _

theorem reduce_from {items : List Value} (hi : ∀ v ∈ items, v.Blind r) (i : Nat) {sum : Value}
    (hs : sum.Blind r) : Unaffected s s' (Value.Blind r) (reduceFrom once rest i sum items) := by
  induction items generalizing i sum with
  | nil => exact .pure hs
  | cons v items ih =>
    obtain ⟨hv, hi⟩ := List.forall_mem_cons.1 hi
    have ha : ∀ w ∈ sum :: v :: rest i, w.Blind r :=
      List.forall_mem_cons.2 ⟨hs, List.forall_mem_cons.2 ⟨hv, hr i⟩⟩
    exact (ho _ ha).bind fun _ hw => ih hi _ hw

end Loops

section Sorting

variable {behind : Value → Value → EvalM Bool}
  (hb : ∀ a b, a.Blind r → b.Blind r → Unaffected s s' (fun _ => True) (behind a b))
include hb

theorem merge_from {done left right : List Value} (hd : ∀ v ∈ done, v.Blind r)
    (hl : ∀ v ∈ left, v.Blind r) (hr : ∀ v ∈ right, v.Blind r) :
    Unaffected s s' (fun items => ∀ v ∈ items, v.Blind r) (mergeFrom behind done left right) := by
  have hdone : ∀ v ∈ done.reverse, v.Blind r := fun v hv => hd v (List.mem_reverse.1 hv)
  -- either list may be the one that gets shorter
  induction hn : left.length + right.length generalizing done left right with
  | zero =>
    obtain rfl : left = [] := List.length_eq_zero_iff.1 (by omega)
    rw [mergeFrom]
    exact .pure (List.forall_mem_append.2 ⟨hdone, hr⟩)
  | succ n ih =>
    rcases left with _ | ⟨a, left⟩
    · rw [mergeFrom]
      exact .pure (List.forall_mem_append.2 ⟨hdone, hr⟩)
    · rcases right with _ | ⟨b, right⟩
      · simp only [mergeFrom]
        exact .pure (List.forall_mem_append.2 ⟨hdone, hl⟩)
      · simp only [List.length_cons] at hn
        obtain ⟨ha, hl'⟩ := List.forall_mem_cons.1 hl
        obtain ⟨hb', hr'⟩ := List.forall_mem_cons.1 hr
        rw [mergeFrom]
        refine (hb a b ha hb').bind fun goes _ => ?_
        have hcons {w : Value} (hw : w.Blind r) : ∀ v ∈ (w :: done).reverse, v.Blind r := by
          rw [List.reverse_cons]
          exact List.forall_mem_append.2 ⟨hdone, List.forall_mem_singleton.2 hw⟩
        split
        · refine ih (List.forall_mem_cons.2 ⟨hb', hd⟩) hl hr' (hcons hb') ?_
          simp only [List.length_cons]
          omega
        · refine ih (List.forall_mem_cons.2 ⟨ha, hd⟩) hl' hr (hcons ha) ?_
          simp only [List.length_cons]
          omega

theorem sort_items {items : List Value} (hi : ∀ v ∈ items, v.Blind r) :
    Unaffected s s' (fun items => ∀ v ∈ items, v.Blind r) (sortItems behind items) := by
  induction hn : items.length using Nat.strongRecOn generalizing items with
  | ind n ih =>
    rw [sortItems]
    split
    · exact .pure hi
    · have htake := ih (items.take (items.length / 2)).length (by rw [List.length_take]; omega)
        (fun v hv => hi v (List.mem_of_mem_take hv)) rfl
      have hdrop := ih (items.drop (items.length / 2)).length (by rw [List.length_drop]; omega)
        (fun v hv => hi v (List.mem_of_mem_drop hv)) rfl
      exact htake.bind fun _ hl => hdrop.bind fun _ hr => merge_from hb (List.forall_mem_nil _) hl hr

end Sorting

section Replacing

variable {replacer : Value} (hc : CallsBlindly r s s' call) (hp : replacer.Blind r)
include h hc hp

theorem with_replacement (pattern out : String) :
    Unaffected s s' (fun _ => True) (withReplacement call pattern replacer out) := by
  have hr : Unaffected s s' (fun _ => True) (replacement call pattern replacer) := by
    unfold replacement
    split
    · exact (hc replacer [.string pattern] hp (List.forall_mem_singleton.2 trivial)).bind
        fun _ _ => .pure trivial
    · exact .pure trivial
  exact hr.bind fun _ _ => (h.check_bytes _).bind fun _ _ => .pure trivial

theorem interleave (out : String) (text : List Char) :
    Unaffected s s' (fun _ => True) (interleave call replacer out text) := by
  induction text generalizing out with
  | nil => exact h.with_replacement hc hp _ _
  | cons c text ih => exact (h.with_replacement hc hp _ _).bind fun _ _ => ih _

theorem replace_all_from (pattern : List Char) (out : String) (text : List Char) :
    Unaffected s s' (fun _ => True) (replaceAllFrom call pattern replacer out text) := by
  induction out, text using replaceAllFrom.induct pattern with
  | case1 out text hempty =>
    rw [replaceAllFrom, dif_pos hempty]
    exact .pure trivial
  | case2 out text hsome hcut =>
    rw [replaceAllFrom, dif_neg hsome]
    split
    · exact .pure trivial
    · simp_all only [reduceCtorEq]
  | case3 out text hsome before after hcut ih =>
    rw [replaceAllFrom, dif_neg hsome]
    split
    · exact .pure trivial
    · refine (h.with_replacement hc hp _ _).bind fun out _ => ?_
      simp_all only [Option.some.injEq, Prod.mk.injEq]

theorem replace_first (pattern text : List Char) :
    Unaffected s s' (fun _ => True) (replaceFirst call pattern replacer text) := by
  unfold replaceFirst
  split
  · exact .pure trivial
  · exact (h.with_replacement hc hp _ _).bind fun _ _ => .pure trivial

theorem replace_all (pattern text : List Char) :
    Unaffected s s' (fun _ => True) (replaceAll call pattern replacer text) := by
  unfold replaceAll
  split
  · exact h.interleave hc hp _ _
  · exact h.replace_all_from hc hp _ _ _

end Replacing

end

end SameBut

end Workflow.Eval
