import Workflow.Proofs.Eval.Meter
import Workflow.Proofs.Eval.RelabelParts

/-! Evaluations that run alike: whatever each of the two has used up before, their results differ
only in the numbers of their marks. So do functions of the language on alike values, as long as
their callbacks do. -/
namespace Workflow.Eval

/-- Gives out marks anew. Those between two bounds are moved by a fixed distance. -/
structure Renaming where
  map : Nat → Nat
  injective : Function.Injective map
  low : Nat
  top : Nat
  distance : Nat
  moves : ∀ k, low ≤ k → k < top → map k = k + distance

/-- If both evaluations have results, and the second one starts with marks that are moved, then `h`
leads from the first result to the second, and the marks behind them are moved as well. -/
structure Alike {α β : Type} (ρ : Renaming) (s : Setting) (h : α → β) (m : EvalM α)
    (m' : EvalM β) : Prop where
  grows : ∀ {t a u}, m s t = .ok a u → t.made ≤ u.made
  same : ∀ {t t' a b u u'}, m s t = .ok a u → m' s t' = .ok b u' → ρ.low ≤ t.made →
    u.made ≤ ρ.top → t'.made = t.made + ρ.distance → b = h a ∧ u'.made = u.made + ρ.distance

variable {α β γ δ : Type} {ρ : Renaming} {s : Setting}

namespace Alike

variable {h : α → β} {k : γ → δ}

theorem pure {a : α} {b : β} (hb : b = h a) : Alike ρ s h (Pure.pure a) (Pure.pure b) where
  grows := by
    intro t a' u hr
    cases hr
    exact Nat.le_refl _
  same := by
    intro t t' a' b' u u' hr hr' _ _ ht
    cases hr
    cases hr'
    exact ⟨hb, ht⟩

theorem fail {fault fault' : Fault} : Alike ρ s h (fail fault) (fail fault') where
  grows := by
    intro t a u hr
    cases hr
  same := by
    intro t t' a b u u' hr
    cases hr

theorem mismatch {cause cause' : Mismatch} :
    Alike ρ s h (mismatch cause) (mismatch cause') :=
  fail

theorem outOfRange {cause cause' : Range} :
    Alike ρ s h (outOfRange cause) (outOfRange cause') :=
  fail

theorem bind {m : EvalM α} {m' : EvalM β} {f : α → EvalM γ} {f' : β → EvalM δ}
    (hm : Alike ρ s h m m') (hf : ∀ a, Alike ρ s k (f a) (f' (h a))) :
    Alike ρ s k (m >>= f) (m' >>= f') where
  grows := by
    intro t c u hr
    obtain ⟨a, t₁, ha, hc⟩ := exists_of_bind hr
    exact Nat.le_trans (hm.grows ha) ((hf a).grows hc)
  same := by
    intro t t' c d u u' hr hr' hlow htop ht
    obtain ⟨a, t₁, ha, hc⟩ := exists_of_bind hr
    obtain ⟨b, t₁', hb, hd⟩ := exists_of_bind hr'
    -- between the halves the marks are within the bounds as well, since none is given back
    have hbelow : t₁.made ≤ ρ.top := Nat.le_trans ((hf a).grows hc) htop
    have habove : ρ.low ≤ t₁.made := Nat.le_trans hlow (hm.grows ha)
    obtain ⟨rfl, ht₁⟩ := hm.same ha hb hlow hbelow ht
    exact (hf a).same hc hd habove htop ht₁

/-- What comes behind evaluations with the same result. -/
theorem andThen {m m' : EvalM α} {f : α → EvalM γ} {f' : α → EvalM δ} (hm : Alike ρ s id m m')
    (hf : ∀ a, Alike ρ s k (f a) (f' a)) : Alike ρ s k (m >>= f) (m' >>= f') :=
  hm.bind hf

theorem map {m : EvalM α} {m' : EvalM β} {f : α → γ} {f' : β → δ} (hm : Alike ρ s h m m')
    (hf : ∀ a, f' (h a) = k (f a)) : Alike ρ s k (f <$> m) (f' <$> m') := by
  rw [map_eq_pure_bind, map_eq_pure_bind]
  exact hm.bind fun a => pure (hf a)

theorem look {f : Setting → EvalM α} {f' : Setting → EvalM β} (hf : Alike ρ s h (f s) (f' s)) :
    Alike ρ s h (read >>= f) (read >>= f') where
  grows hr := hf.grows hr
  same hr hr' := hf.same hr hr'

theorem orOutOfRange (cause : Range) (o : Option α) :
    Alike ρ s id (orOutOfRange cause o) (orOutOfRange cause o) := by
  cases o with
  | none => exact outOfRange
  | some a => exact pure rfl

/-- A check that gives out no marks. -/
theorem check {m : EvalM Unit} (hm : ∀ {t u}, m s t = .ok () u → u.made = t.made) :
    Alike ρ s id m m where
  grows hr := Nat.le_of_eq (hm hr).symm
  same := by
    intro t t' a b u u' hr hr' _ _ ht
    rw [hm hr, hm hr']
    exact ⟨rfl, ht⟩

theorem tick : Alike ρ s id tick tick :=
  check fun hr => by rw [eq_of_tick hr]

theorem check_length (length : Nat) : Alike ρ s id (checkLength length) (checkLength length) := by
  refine tick.andThen fun _ => check fun {t u} hr => ?_
  simp only [run_bind, run_get_limits, run_ite, run_exceed, run_pure] at hr
  split at hr
  · cases hr
  · cases hr
    rfl

theorem check_bytes (bytes : Nat) : Alike ρ s id (checkBytes bytes) (checkBytes bytes) := by
  refine check fun {t u} hr => ?_
  rw [run_check_bytes] at hr
  split at hr
  · cases hr
  · cases hr
    rfl

theorem charge (units : Nat) : Alike ρ s id (charge units) (charge units) := by
  refine check fun {t u} hr => ?_
  rw [run_charge] at hr
  split at hr
  · cases hr
  · cases hr
    rfl

theorem reserve_items (length : Nat) :
    Alike ρ s id (reserveItems length) (reserveItems length) :=
  (check_length length).andThen fun _ => charge length

theorem reserve_bytes (bytes : Nat) : Alike ρ s id (reserveBytes bytes) (reserveBytes bytes) :=
  (check_bytes bytes).andThen fun _ => charge bytes

/-- Only here the two runs part. -/
theorem fresh_mark : Alike ρ s (Mark.relabel ρ.map) freshMark freshMark where
  grows := by
    intro t a u hr
    cases hr
    exact Nat.le_succ _
  same := by
    intro t t' a b u u' hr hr' hlow htop ht
    cases hr
    cases hr'
    have hmoved : ρ.map t.made = t'.made := by
      rw [ht]
      exact ρ.moves t.made hlow htop
    refine ⟨?_, ?_⟩
    · show ({ origin := .made t'.made } : Mark) = { origin := .made (ρ.map t.made) }
      rw [hmoved]
    · show t'.made + 1 = t.made + 1 + ρ.distance
      omega

/-- A run of `n` has a run of `m` inside, and gives out no other marks. -/
def Wraps (s : Setting) (n m : EvalM α) : Prop :=
  ∀ {t a u}, n s t = .ok a u → ∃ t₁ u₁ : Meter,
    m s t₁ = .ok a u₁ ∧ t₁.made = t.made ∧ u₁.made = u.made

theorem wraps_deeper (cause : Nat → Excess) (m : EvalM α) : Wraps s (Eval.deeper cause m) m := by
  intro t a u hr
  obtain ⟨-, u₁, ha, rfl⟩ := exists_of_deeper hr
  exact ⟨_, u₁, ha, rfl, rfl⟩

theorem wraps_calling (m : EvalM α) : Wraps s (Eval.calling m) m := by
  intro t a u hr
  obtain ⟨-, u₁, ha, rfl⟩ := exists_of_calling hr
  exact ⟨_, u₁, ha, rfl, rfl⟩

theorem around {m n : EvalM α} {m' n' : EvalM β} (hm : Alike ρ s h m m') (hn : Wraps s n m)
    (hn' : Wraps s n' m') : Alike ρ s h n n' where
  grows := by
    intro t a u hr
    obtain ⟨t₁, u₁, ha, ht₁, hu₁⟩ := hn hr
    rw [← ht₁, ← hu₁]
    exact hm.grows ha
  same := by
    intro t t' a b u u' hr hr' hlow htop ht
    obtain ⟨t₁, u₁, ha, ht₁, hu₁⟩ := hn hr
    obtain ⟨t₁', u₁', hb, ht₁', hu₁'⟩ := hn' hr'
    rw [← ht₁] at hlow ht
    rw [← ht₁'] at ht
    rw [← hu₁] at htop ⊢
    rw [← hu₁']
    exact hm.same ha hb hlow htop ht

theorem deeper {cause : Nat → Excess} {m : EvalM α} {m' : EvalM β} (hm : Alike ρ s h m m') :
    Alike ρ s h (deeper cause m) (deeper cause m') :=
  hm.around (wraps_deeper cause m) (wraps_deeper cause m')

theorem calling {m : EvalM α} {m' : EvalM β} (hm : Alike ρ s h m m') :
    Alike ρ s h (calling m) (calling m') :=
  hm.around (wraps_calling m) (wraps_calling m')

end Alike

/-- The results are values that are alike. -/
abbrev ValuesAlike (ρ : Renaming) (s : Setting) (m m' : EvalM Value) : Prop :=
  Alike ρ s (Value.relabel ρ.map) m m'

/-- The results are texts, numbers or booleans, which are the same. -/
abbrev SameResults (ρ : Renaming) (s : Setting) (m m' : EvalM α) : Prop :=
  Alike ρ s id m m'

namespace Alike

theorem some_link {m m' : EvalM Value} (hm : ValuesAlike ρ s m m') :
    Alike ρ s (Link.relabel ρ.map) (some <$> m) (some <$> m') :=
  hm.map fun _ => rfl

theorem as_value {m m' : EvalM Link} (hm : Alike ρ s (Link.relabel ρ.map) m m') :
    ValuesAlike ρ s (asValue m) (asValue m') :=
  deeper (hm.bind fun link => pure (getD_relabel link))

theorem as_link (isChain : Bool) {m m' : EvalM Link} (hm : Alike ρ s (Link.relabel ρ.map) m m') :
    Alike ρ s (Link.relabel ρ.map) (asLink isChain m) (asLink isChain m') := by
  cases isChain with
  | true =>
    show Alike ρ s _ (Eval.deeper (fun _ => .chain) m) (Eval.deeper (fun _ => .chain) m')
    exact deeper hm
  | false => exact hm.as_value.some_link

theorem new_string (text : String) : ValuesAlike ρ s (newString text) (newString text) :=
  (reserve_bytes _).andThen fun _ => pure rfl

theorem free_array {items items' : List Value} (h : items' = items.map (Value.relabel ρ.map)) :
    ValuesAlike ρ s (freeArray items) (freeArray items') := by
  refine fresh_mark.bind fun mark => pure ?_
  rw [relabel_array, h]

theorem new_array {items items' : List Value} (h : items' = items.map (Value.relabel ρ.map)) :
    ValuesAlike ρ s (newArray items) (newArray items') := by
  have hlength : items'.length = items.length := by
    rw [h, List.length_map]
  unfold newArray
  rw [hlength]
  exact (reserve_items _).andThen fun _ => free_array h

theorem new_flat (depth : Nat) (items : List Value) :
    ValuesAlike ρ s (newArray (flattenOnto depth [] items).reverse)
      (newArray (flattenOnto depth [] (items.map (Value.relabel ρ.map))).reverse) := by
  refine new_array ?_
  rw [List.map_reverse, relabel_flattenOnto, List.map_nil]

theorem free_object (entries : List (String × Value)) :
    ValuesAlike ρ s (freeObject entries) (freeObject (entries.map (relabelEntry ρ.map))) := by
  refine fresh_mark.bind fun mark => pure ?_
  rw [relabel_object, ofList_relabel]

theorem callback (args : List Value) (i : Nat) (role : String) :
    ValuesAlike ρ s (callback args i role)
      (callback (args.map (Value.relabel ρ.map)) i role) := by
  unfold Eval.callback
  simp only [arg_relabel, Value.isFunction_relabel]
  split
  · exact pure rfl
  · exact mismatch

theorem to_object (v : Value) : ValuesAlike ρ s (toObject v) (toObject (v.relabel ρ.map)) := by
  cases v with
  | object m entries => exact pure rfl
  | array m items => exact pure rfl
  | _ => exact free_object []

theorem missing_items (n : Nat) : List.replicate n Value.undefined =
    (List.replicate n .undefined).map (Value.relabel ρ.map) := by
  rw [List.map_replicate]
  rfl

theorem to_array (args : List Value) :
    ValuesAlike ρ s (toArray args) (toArray (args.map (Value.relabel ρ.map))) := by
  match args with
  | [] => exact new_array rfl
  -- a number alone is a length, and anything else an item
  | [v] =>
    cases v with
    | number x =>
      show ValuesAlike ρ s (toArray [.number x]) (toArray [.number x])
      unfold toArray
      dsimp only
      split
      · exact outOfRange
      · exact (reserve_items _).andThen fun _ => free_array (missing_items _)
    | _ => exact new_array rfl
  | v :: w :: rest =>
    have hmore (v w : Value) (rest : List Value) :
        toArray (v :: w :: rest) = newArray (v :: w :: rest) := by
      cases v
      all_goals rfl
    rw [List.map_cons, List.map_cons, hmore, hmore]
    exact new_array rfl

theorem items_of (v : Value) : Alike ρ s (List.map (Value.relabel ρ.map)) (itemsOf v)
    (itemsOf (v.relabel ρ.map)) := by
  cases v with
  | array m items =>
    rw [relabel_array]
    exact pure rfl
  | string text => exact pure (relabel_characters text).symm
  | object m entries =>
    -- the length of an object is a number, which has no marks
    have hlength : ((Fields.get? (entries.map (relabelEntry ρ.map)) "length").map
        Value.toInteger).getD 0.0 =
          ((Fields.get? entries "length").map Value.toInteger).getD 0.0 := by
      show (((entries.map (relabelEntry ρ.map)).lookup "length").map Value.toInteger).getD 0.0 =
        ((entries.lookup "length").map Value.toInteger).getD 0.0
      rw [lookup_relabel, Option.map_map]
      exact congrArg (Option.getD · 0.0)
        (congrArg (Option.map · _) (funext fun v => v.toInteger_relabel))
    rw [relabel_object]
    unfold itemsOf
    dsimp only
    rw [hlength]
    exact (check_length _).andThen fun _ => pure (missing_items _)
  | _ => exact pure rfl

theorem stringify (args : List Value) :
    ValuesAlike ρ s (stringify args) (stringify (args.map (Value.relabel ρ.map))) := by
  unfold Eval.stringify
  simp only [arg_relabel, Value.toJson?_relabel, indentOf_relabel]
  split
  · exact pure rfl
  · exact new_string _

theorem parse_json (text : String) : ValuesAlike ρ s (parseJson text) (parseJson text) := by
  unfold parseJson
  split
  · exact fresh_mark.bind fun mark => pure (relabel_ofJson mark _).symm
  · exact fail

theorem decode_uri (keep : List Char) (text : String) :
    ValuesAlike ρ s (decodeUri keep text) (decodeUri keep text) := by
  unfold decodeUri
  split
  · exact pure rfl
  · exact fail

theorem convert (space : Namespace) (args : List Value) :
    ValuesAlike ρ s (convert space args) (convert space (args.map (Value.relabel ρ.map))) := by
  cases space
  case array => exact to_array args
  case object =>
    show ValuesAlike ρ s (toObject _) (toObject (Value.arg _ 0))
    rw [arg_relabel]
    exact to_object _
  case date => exact look (pure rfl)
  case string =>
    refine pure ?_
    rw [head?_relabel Value.display_relabel]
    rfl
  case number =>
    refine pure ?_
    rw [head?_relabel Value.toNumber_relabel]
    rfl
  case boolean =>
    refine pure ?_
    rw [arg_relabel, Value.isTruthy_relabel]
    rfl
  all_goals exact mismatch

theorem amounts (entries : List (String × Value)) (sign : Float) :
    SameResults ρ s (amounts entries sign) (amounts (entries.map (relabelEntry ρ.map)) sign) := by
  unfold Eval.amounts
  induction entries with
  | nil => exact pure rfl
  | cons entry entries ih =>
    rw [List.map_cons, List.mapM_cons, List.mapM_cons]
    have hunit : SameResults ρ s
        (do return (← Eval.orOutOfRange .unit (Time.TimeUnit.ofName? entry.1),
          entry.2.toNumber * sign))
        (do return (← Eval.orOutOfRange .unit (Time.TimeUnit.ofName? entry.1),
          (entry.2.relabel ρ.map).toNumber * sign)) := by
      rw [Value.toNumber_relabel]
      exact (orOutOfRange _ _).andThen fun _ => pure rfl
    exact hunit.andThen fun _ => ih.andThen fun _ => pure rfl

theorem shift (m : Time.Moment) (duration : Value) (sign : Float) :
    ValuesAlike ρ s (shift m duration sign) (shift m (duration.relabel ρ.map) sign) := by
  cases duration with
  | number x => exact (orOutOfRange _ _).andThen fun _ => pure rfl
  | object mark entries =>
    rw [relabel_object]
    refine (amounts entries sign).andThen fun amounts => ?_
    split
    · exact pure rfl
    · exact outOfRange
    · exact outOfRange
  | _ => exact outOfRange

theorem moment_method (m : Time.Moment) (method : MomentMethod) (args : List Value) :
    ValuesAlike ρ s (momentMethod m method args)
      (momentMethod m method (args.map (Value.relabel ρ.map))) := by
  unfold momentMethod readUnit
  simp only [arg_relabel, Value.display_relabel]
  cases method
  case plus | minus => exact shift _ _ _
  case startOf | endOf =>
    exact (orOutOfRange _ _).andThen fun _ => (orOutOfRange _ _).andThen fun _ => pure rfl
  case setZone => exact (look (orOutOfRange _ _)).andThen fun _ => pure rfl
  all_goals exact pure rfl

/-- Digits and texts have no marks. -/
theorem to_radix (x : Float) (radix : Value) :
    ValuesAlike ρ s (toRadix x radix) (toRadix x radix) := by
  unfold toRadix
  split
  · exact pure rfl
  · dsimp only
    split
    · exact outOfRange
    · exact pure rfl

theorem number_method (x : Float) (method : NumberMethod) (args : List Value) :
    ValuesAlike ρ s (numberMethod x method args)
      (numberMethod x method (args.map (Value.relabel ρ.map))) := by
  unfold numberMethod
  rw [arg_relabel]
  cases method
  case toFixed =>
    dsimp only
    unfold toFixed
    rw [Value.toInteger_relabel]
    dsimp only
    split
    · exact outOfRange
    · split
      · exact pure rfl
      · exact pure rfl
  case toString =>
    have hsame : toRadix x ((Value.arg args 0).relabel ρ.map) = toRadix x (Value.arg args 0) := by
      refine missing_or_relabel (f := fun v =>
        if v.toInteger < 2.0 ∨ 36.0 < v.toInteger then Eval.outOfRange .radix
        else Pure.pure (.string ((Number.inRadix? (Number.clampNat 36 v.toInteger) x).getD
          (Number.display x)))) ?_ ?_ _
      · intro v hv
        unfold toRadix
        split
        · contradiction
        · rfl
      · intro v
        rw [Value.toInteger_relabel]
    dsimp only
    rw [hsame]
    exact to_radix x _
  all_goals exact pure rfl

theorem split_text (text : List Char) (args : List Value) :
    ValuesAlike ρ s (splitText text args) (splitText text (args.map (Value.relabel ρ.map))) := by
  have htexts (parts : List (List Char)) :
      (parts.map fun part => Value.string (String.ofList part)).map (Value.relabel ρ.map) =
        parts.map fun part => .string (String.ofList part) := by
    rw [List.map_map]
    rfl
  have hsame : splitText text (args.map (Value.relabel ρ.map)) = splitText text args := by
    unfold splitText
    simp only [arg_relabel, pieces_relabel]
    generalize Value.arg args 1 = limit
    -- of all limits only an array is read through its items
    cases limit with
    | array m items =>
      have hlimit := Value.toInteger_relabel (g := ρ.map) (.array m items)
      rw [relabel_array] at hlimit ⊢
      simp only [hlimit]
    | _ => rfl
  rw [hsame]
  unfold splitText
  exact new_array (htexts _).symm

theorem pad (inFront : Bool) (text : String) (args : List Value) :
    ValuesAlike ρ s (pad inFront text args)
      (pad inFront text (args.map (Value.relabel ρ.map))) := by
  have hsame : Eval.pad inFront text (args.map (Value.relabel ρ.map)) =
      Eval.pad inFront text args := by
    unfold Eval.pad
    simp only [arg_relabel, Value.toInteger_relabel]
    generalize Value.arg args 1 = fill
    -- and so is what the text is filled with
    cases fill with
    | array m items =>
      have hfill := Value.display_relabel (g := ρ.map) (.array m items)
      rw [relabel_array] at hfill ⊢
      simp only [hfill]
    | _ => rfl
  rw [hsame]
  unfold Eval.pad
  extract_lets target fill length
  split
  · exact pure rfl
  · exact (reserve_bytes _).andThen fun _ => pure rfl

theorem repeated (text : String) (v : Value) :
    ValuesAlike ρ s (repeated text v) (repeated text (v.relabel ρ.map)) := by
  unfold Eval.repeated
  rw [Value.toInteger_relabel]
  dsimp only
  split
  · exact outOfRange
  · exact (reserve_bytes _).andThen fun _ => pure rfl

theorem join_from (separator out : String) (first : Bool) (items : List Value) :
    SameResults ρ s (joinFrom separator out first items)
      (joinFrom separator out first (items.map (Value.relabel ρ.map))) := by
  induction items generalizing out first with
  | nil => exact pure rfl
  | cons v items ih =>
    unfold joinFrom
    simp only [List.map_cons, Value.isNullish_relabel, Value.write_relabel]
    exact (check_bytes _).andThen fun _ => ih _ _

theorem concat_from (items args : List Value) :
    Alike ρ s (List.map (Value.relabel ρ.map)) (concatFrom items args)
      (concatFrom (items.map (Value.relabel ρ.map)) (args.map (Value.relabel ρ.map))) := by
  induction args generalizing items with
  | nil => exact pure rfl
  | cons v args ih =>
    -- an array is spread and anything else is one item, but the length is checked for both
    have hstep (more : List Value) : Alike ρ s (List.map (Value.relabel ρ.map))
        (do checkLength more.length; concatFrom more args)
        (do checkLength (more.map (Value.relabel ρ.map)).length
            concatFrom (more.map (Value.relabel ρ.map)) (args.map (Value.relabel ρ.map))) := by
      rw [List.length_map]
      exact (check_length _).andThen fun _ => ih more
    cases v with
    | array m inner =>
      have ha := hstep (items ++ inner)
      rw [List.map_append] at ha
      rw [List.map_cons, relabel_array]
      exact ha
    | _ =>
      have ha (w : Value) := hstep (items ++ [w])
      simp only [List.map_append] at ha
      exact ha _

section Loops

variable {once once' : List Value → EvalM Value} {rest rest' : Nat → List Value}
  (ho : ∀ args, ValuesAlike ρ s (once args) (once' (args.map (Value.relabel ρ.map))))
  (hr : ∀ i, rest' i = (rest i).map (Value.relabel ρ.map))
include ho hr

/-- The function is called with the item and what goes with it, behind the values in `front`. -/
theorem call_item (front : List Value) (v : Value) (i : Nat) :
    ValuesAlike ρ s (once (front ++ v :: rest i))
      (once' (front.map (Value.relabel ρ.map) ++ v.relabel ρ.map :: rest' i)) := by
  rw [hr, ← List.map_cons, ← List.map_append]
  exact ho _

theorem map_from (i : Nat) (done items : List Value) :
    Alike ρ s (List.map (Value.relabel ρ.map)) (mapFrom once rest i done items)
      (mapFrom once' rest' i (done.map (Value.relabel ρ.map))
        (items.map (Value.relabel ρ.map))) := by
  induction items generalizing i done with
  | nil => exact pure List.map_reverse.symm
  | cons v items ih => exact (call_item ho hr [] v i).bind fun w => ih (i + 1) (w :: done)

theorem filter_from (i : Nat) (done items : List Value) :
    Alike ρ s (List.map (Value.relabel ρ.map)) (filterFrom once rest i done items)
      (filterFrom once' rest' i (done.map (Value.relabel ρ.map))
        (items.map (Value.relabel ρ.map))) := by
  induction items generalizing i done with
  | nil => exact pure List.map_reverse.symm
  | cons v items ih =>
    refine (call_item ho hr [] v i).bind fun w => ?_
    dsimp only
    rw [Value.isTruthy_relabel]
    cases w.isTruthy with
    | true => exact ih (i + 1) (v :: done)
    | false => exact ih (i + 1) done

theorem search_from (wanted : Bool) (i : Nat) (items : List Value) :
    Alike ρ s (Option.map fun found => (found.1, found.2.relabel ρ.map))
      (searchFrom once rest wanted i items)
      (searchFrom once' rest' wanted i (items.map (Value.relabel ρ.map))) := by
  induction items generalizing i with
  | nil => exact pure rfl
  | cons v items ih =>
    refine (call_item ho hr [] v i).bind fun w => ?_
    rw [Value.isTruthy_relabel]
    split
    · exact pure rfl
    · exact ih (i + 1)

theorem for_each_from (i : Nat) (items : List Value) :
    ValuesAlike ρ s (forEachFrom once rest i items)
      (forEachFrom once' rest' i (items.map (Value.relabel ρ.map))) := by
  induction items generalizing i with
  | nil => exact pure rfl
  | cons v items ih => exact (call_item ho hr [] v i).bind fun _ => ih (i + 1)

theorem reduce_from (i : Nat) (sum : Value) (items : List Value) :
    ValuesAlike ρ s (reduceFrom once rest i sum items)
      (reduceFrom once' rest' i (sum.relabel ρ.map) (items.map (Value.relabel ρ.map))) := by
  induction items generalizing i sum with
  | nil => exact pure rfl
  | cons v items ih => exact (call_item ho hr [sum] v i).bind fun w => ih (i + 1) w

end Loops

section Sorting

variable {behind behind' : Value → Value → EvalM Bool}
  (hb : ∀ a b, SameResults ρ s (behind a b)
    (behind' (a.relabel ρ.map) (b.relabel ρ.map)))
include hb

theorem merge_from (done left right : List Value) :
    Alike ρ s (List.map (Value.relabel ρ.map)) (mergeFrom behind done left right)
      (mergeFrom behind' (done.map (Value.relabel ρ.map)) (left.map (Value.relabel ρ.map))
        (right.map (Value.relabel ρ.map))) := by
  have hdone (l : List Value) : (done.map (Value.relabel ρ.map)).reverse ++
      l.map (Value.relabel ρ.map) = (done.reverse ++ l).map (Value.relabel ρ.map) := by
    rw [List.map_append, List.map_reverse]
  -- either list may be the one that gets shorter
  induction hn : left.length + right.length generalizing done left right with
  | zero =>
    obtain rfl : left = [] := List.length_eq_zero_iff.1 (by omega)
    simp only [List.map_nil, mergeFrom]
    exact pure (hdone right)
  | succ n ih =>
    rcases left with _ | ⟨a, left⟩
    · simp only [List.map_nil, mergeFrom]
      exact pure (hdone right)
    · rcases right with _ | ⟨b, right⟩
      · simp only [List.map_nil, List.map_cons, mergeFrom]
        exact pure (hdone (a :: left))
      · simp only [List.length_cons] at hn
        simp only [List.map_cons, mergeFrom]
        refine (hb a b).andThen fun goes => ?_
        cases goes with
        | true =>
          refine ih (b :: done) (a :: left) right (fun l => ?_) ?_
          · rw [List.map_append, List.map_reverse]
          · simp only [List.length_cons]
            omega
        | false =>
          refine ih (a :: done) left (b :: right) (fun l => ?_) ?_
          · rw [List.map_append, List.map_reverse]
          · simp only [List.length_cons]
            omega

theorem sort_items (items : List Value) :
    Alike ρ s (List.map (Value.relabel ρ.map)) (sortItems behind items)
      (sortItems behind' (items.map (Value.relabel ρ.map))) := by
  induction hn : items.length using Nat.strongRecOn generalizing items with
  | ind n ih =>
    rw [sortItems, sortItems, List.length_map]
    split
    · exact pure rfl
    · dsimp only
      rw [← List.map_take, ← List.map_drop]
      have htake := ih (items.take (items.length / 2)).length
        (by rw [List.length_take]; omega) _ rfl
      have hdrop := ih (items.drop (items.length / 2)).length
        (by rw [List.length_drop]; omega) _ rfl
      exact htake.bind fun left => hdrop.bind fun right => merge_from hb [] left right

end Sorting

end Alike

end Workflow.Eval
