import Workflow.Proofs.Eval.Affords
import Workflow.Proofs.Eval.Relabel

/-! What values with other marks are made of. Their parts and members, and what functions make of
arguments, have other marks as well, or are the same. -/
namespace Workflow.Eval

variable {g : Nat → Nat}

@[simp]
theorem arg_relabel (args : List Value) (i : Nat) :
    Value.arg (args.map (Value.relabel g)) i = (Value.arg args i).relabel g := by
  unfold Value.arg
  rw [List.getD_eq_getElem?_getD, List.getD_eq_getElem?_getD, List.getElem?_map]
  cases args[i]? with
  | none => rfl
  | some v => rfl

@[simp]
theorem lookup_relabel (entries : List (String × Value)) (key : String) :
    (entries.map (relabelEntry g)).lookup key = (entries.lookup key).map (Value.relabel g) := by
  induction entries with
  | nil => rfl
  | cons e rest ih =>
    obtain ⟨k, v⟩ := e
    rw [List.map_cons, relabelEntry, List.lookup_cons, List.lookup_cons]
    cases key == k with
    | true => rfl
    | false => exact ih

theorem insert_relabel (m : Fields Value) (key : String) (v : Value) :
    Fields.insert (m.map (relabelEntry g)) key (v.relabel g) =
      (Fields.insert m key v).map (relabelEntry g) := by
  induction m with
  | nil => rfl
  | cons e rest ih =>
    obtain ⟨k, w⟩ := e
    rw [List.map_cons, relabelEntry, Fields.insert, Fields.insert]
    dsimp only
    rw [ih]
    split
    · rfl
    · split
      · rfl
      · rfl

@[simp]
theorem ofList_relabel (entries : List (String × Value)) :
    Fields.ofList (entries.map (relabelEntry g)) =
      (Fields.ofList entries).map (relabelEntry g) := by
  have hall (m : Fields Value) :
      Fields.insertAll (m.map (relabelEntry g)) (entries.map (relabelEntry g)) =
        (Fields.insertAll m entries).map (relabelEntry g) := by
    unfold Fields.insertAll
    induction entries generalizing m with
    | nil => rfl
    | cons e rest ih =>
      rw [List.map_cons, List.foldl_cons, List.foldl_cons, ← ih, ← insert_relabel]
      rfl
  exact hall []

@[simp]
theorem relabel_orMinusOne (i : Option Nat) : (orMinusOne i).relabel g = orMinusOne i := by
  cases i
  all_goals rfl

@[simp]
theorem relabel_characters (s : String) :
    (characters s).map (Value.relabel g) = characters s := by
  unfold characters
  rw [List.map_map]
  rfl

@[simp]
theorem getD_relabel (v? : Option Value) :
    (v?.map (Value.relabel g)).getD .undefined = (v?.getD .undefined).relabel g := by
  cases v?
  all_goals rfl

theorem relabel_ofLists (m : Mark) (lists : List (List Value)) :
    (Value.ofLists m lists).map (Value.relabel g) =
      Value.ofLists (m.relabel g) (lists.map (List.map (Value.relabel g))) := by
  refine List.ext_getElem? fun i => ?_
  simp only [Value.ofLists, List.getElem?_map, List.getElem?_mapIdx, Option.map_map]
  refine congrArg (Option.map · lists[i]?) (funext fun items => ?_)
  exact relabel_array _ _

mutual

theorem relabel_ofJson (m : Mark) (j : Json) :
    (Value.ofJson m j).relabel g = .ofJson (m.relabel g) j := by
  cases j with
  | array items =>
    show (Value.array m (Value.ofJsonItems m 0 [] items)).relabel g = _
    rw [relabel_array, relabel_ofJsonItems m 0 [] items]
    rfl
  | object entries =>
    show (Value.object m (Value.ofJsonEntries m 0 [] entries)).relabel g = _
    rw [relabel_object, relabel_ofJsonEntries m 0 [] entries]
    rfl
  | _ => rfl
termination_by structural j

theorem relabel_ofJsonItems (m : Mark) (i : Nat) (done : List Value) (items : List Json) :
    (Value.ofJsonItems m i done items).map (Value.relabel g) =
      Value.ofJsonItems (m.relabel g) i (done.map (Value.relabel g)) items := by
  cases items with
  | nil => exact List.map_reverse
  | cons j rest =>
    show (Value.ofJsonItems m (i + 1) (.ofJson (m.part i) j :: done) rest).map _ = _
    rw [relabel_ofJsonItems m (i + 1) _ rest, List.map_cons, relabel_ofJson (m.part i) j]
    rfl
termination_by structural items

theorem relabel_ofJsonEntries (m : Mark) (i : Nat) (done : List (String × Value))
    (entries : List (String × Json)) :
    (Value.ofJsonEntries m i done entries).map (relabelEntry g) =
      Value.ofJsonEntries (m.relabel g) i (done.map (relabelEntry g)) entries := by
  cases entries with
  | nil => exact List.map_reverse
  | cons e rest =>
    obtain ⟨key, j⟩ := e
    show (Value.ofJsonEntries m (i + 1) ((key, .ofJson (m.part i) j) :: done) rest).map _ = _
    rw [relabel_ofJsonEntries m (i + 1) _ rest, List.map_cons, relabelEntry,
      relabel_ofJson (m.part i) j]
    rfl
termination_by structural entries

end

theorem entriesOf_relabel (v : Value) :
    entriesOf (v.relabel g) = (entriesOf v).map (relabelEntry g) := by
  have hindexed (items : List Value) :
      (items.map (Value.relabel g)).mapIdx (fun i v => (toString i, v)) =
        (items.mapIdx fun i v => (toString i, v)).map (relabelEntry g) := by
    refine List.ext_getElem? fun i => ?_
    simp only [List.getElem?_map, List.getElem?_mapIdx, Option.map_map]
    rfl
  cases v with
  | object m entries =>
    rw [relabel_object]
    rfl
  | array m items =>
    rw [relabel_array]
    exact hindexed items
  | string s =>
    have hs := hindexed (characters s)
    rw [relabel_characters] at hs
    exact hs
  | _ => rfl

theorem pair?_relabel (v : Value) : pair? (v.relabel g) = (pair? v).map (relabelEntry g) := by
  cases v with
  | array m items =>
    rw [relabel_array]
    show some ((Value.arg _ 0).display, Value.arg _ 1) = _
    rw [arg_relabel, arg_relabel, Value.display_relabel]
    rfl
  | _ => rfl

theorem relabel_flattenOnto (depth : Nat) (done items : List Value) :
    (flattenOnto depth done items).map (Value.relabel g) =
      flattenOnto depth (done.map (Value.relabel g)) (items.map (Value.relabel g)) := by
  induction depth generalizing done items with
  | zero =>
    unfold flattenOnto
    rw [List.map_append, List.map_reverse]
  | succ depth ih =>
    unfold flattenOnto
    rw [List.foldl_map]
    induction items generalizing done with
    | nil => rfl
    | cons v items ihi =>
      rw [List.foldl_cons, List.foldl_cons, ihi]
      congr 1
      cases v with
      | array m inner =>
        dsimp only
        rw [ih, relabel_array]
      | _ => rfl

/-- What is made of a value that may be missing. -/
theorem missing_or_relabel {α : Type} {k f : Value → α} (hk : ∀ v, v ≠ .undefined → k v = f v)
    (hf : ∀ v : Value, f (v.relabel g) = f v) (v : Value) : k (v.relabel g) = k v := by
  by_cases hv : v = .undefined
  · rw [hv]
    rfl
  · have hv' : v.relabel g ≠ .undefined := mt Value.relabel_eq_undefined_iff.1 hv
    rw [hk _ hv', hk _ hv, hf]

@[simp]
theorem position_relabel (v : Value) (length default : Nat) :
    position (v.relabel g) length default = position v length default := by
  refine missing_or_relabel (f := fun v =>
    if v.toInteger < 0.0 then Number.clampNat length (Float.ofNat length + v.toInteger)
    else Number.clampNat length v.toInteger) (k := (position · length default)) ?_ ?_ v
  · intro v hv
    unfold position
    split
    · contradiction
    · rfl
  · intro v
    rw [Value.toInteger_relabel]

@[simp]
theorem clampedPosition_relabel (v : Value) (length default : Nat) :
    clampedPosition (v.relabel g) length default = clampedPosition v length default := by
  refine missing_or_relabel (f := fun v => Number.clampNat length v.toInteger)
    (k := (clampedPosition · length default)) ?_ ?_ v
  · intro v hv
    unfold clampedPosition
    split
    · contradiction
    · rfl
  · intro v
    rw [Value.toInteger_relabel]

@[simp]
theorem single?_relabel (v : Value) (length : Nat) :
    single? (v.relabel g) length = single? v length := by
  unfold single?
  rw [Value.toInteger_relabel]

@[simp]
theorem charAt?_relabel (s : List Char) (v : Value) : charAt? s (v.relabel g) = charAt? s v := by
  unfold charAt?
  rw [Value.toInteger_relabel]

@[simp]
theorem sliceOf_relabel {α : Type} (l : List α) (args : List Value) :
    sliceOf l (args.map (Value.relabel g)) = sliceOf l args := by
  unfold sliceOf
  simp only [arg_relabel, position_relabel]

theorem sliceOf_map {α β : Type} (f : α → β) (l : List α) (args : List Value) :
    sliceOf (l.map f) args = (sliceOf l args).map f := by
  unfold sliceOf between
  rw [List.length_map, List.map_take, List.map_drop]

@[simp]
theorem substringOf_relabel (s : List Char) (args : List Value) :
    substringOf s (args.map (Value.relabel g)) = substringOf s args := by
  unfold substringOf
  simp only [arg_relabel, clampedPosition_relabel]

theorem relabel_bind? {α : Type} (table : List (String × α)) (key : String) (method : α → Func) :
    (bind? table key method).relabel g = bind? table key fun m => (method m).relabel g := by
  unfold bind?
  split
  · rfl
  · rfl

/-- Methods of receivers without marks. -/
theorem relabel_bind?_self {α : Type} (table : List (String × α)) (key : String)
    {method : α → Func} (h : ∀ m, (method m).relabel g = method m) :
    (bind? table key method).relabel g = bind? table key method := by
  rw [relabel_bind?]
  simp only [h]

theorem relabel_spaceMember (s : Namespace) (key : String) :
    (spaceMember s key).relabel g = spaceMember s key := by
  unfold spaceMember
  split
  · rfl
  · split
    · rfl
    · rfl

theorem relabel_stringMember (s key : String) :
    (stringMember s key).relabel g = stringMember s key := by
  unfold stringMember
  split
  · split
    · rfl
    · rfl
  · split
    · rfl
    · exact relabel_bind?_self _ _ fun _ => rfl

theorem relabel_momentField (m : Time.Moment) (f : MomentField) :
    (momentField m f).relabel g = momentField m f := by
  cases f
  all_goals rfl

theorem arrayMember_relabel (m : Mark) (items : List Value) (key : String) :
    arrayMember (m.relabel g) (items.map (Value.relabel g)) key =
      (arrayMember m items key).relabel g := by
  unfold arrayMember
  split
  · rw [List.getD_eq_getElem?_getD, List.getD_eq_getElem?_getD, List.getElem?_map, getD_relabel]
  · rw [List.length_map]
    split
    · rfl
    · rw [relabel_bind?]
      simp only [relabel_arrayMethod]

theorem member_relabel (v : Value) (key : String) :
    member (v.relabel g) key = (member v key).relabel g := by
  cases v with
  | object m entries =>
    rw [relabel_object]
    show ((entries.map (relabelEntry g)).lookup key).getD .undefined = _
    rw [lookup_relabel, getD_relabel]
    rfl
  | array m items =>
    rw [relabel_array]
    exact arrayMember_relabel m items key
  | string s => exact (relabel_stringMember s key).symm
  | number x => exact (relabel_bind?_self _ _ fun _ => rfl).symm
  | bool b => exact (relabel_bind?_self _ _ fun _ => rfl).symm
  | date t => exact (relabel_bind?_self _ _ fun _ => rfl).symm
  | moment m =>
    rw [relabel_moment]
    unfold member
    dsimp only
    split
    · exact (relabel_momentField m _).symm
    · exact (relabel_bind?_self _ _ fun _ => rfl).symm
  | space s => exact (relabel_spaceMember s key).symm
  | _ => rfl

theorem relabel_global? (name : String) : (global? name).map (Value.relabel g) = global? name := by
  unfold global?
  split
  · rfl
  · rw [Option.map_map]
    rfl

/-- Names stand for the same values if the roots of the context keep their marks. -/
theorem lookup?_relabel {s : Setting} (hs : ∀ x v, named? s.roots x = some v → v.relabel g = v)
    (env : Env) (name : String) :
    lookup? s (env.map (relabelEntry g)) name = (lookup? s env name).map (Value.relabel g) := by
  unfold lookup? named?
  rw [lookup_relabel]
  cases env.lookup name with
  | some v => rfl
  | none =>
    dsimp only [Option.map_none]
    cases hv : s.roots.lookup name with
    | some v => exact congrArg some (hs name v hv).symm
    | none =>
      dsimp only
      split
      · rfl
      · rfl
      · rfl
      · rfl
      · exact (relabel_global? name).symm

theorem bindParams_relabel (params : List String) (args : List Value) (env : Env) :
    bindParams params (args.map (Value.relabel g)) (env.map (relabelEntry g)) =
      (bindParams params args env).map (relabelEntry g) := by
  unfold bindParams
  rw [List.map_append, List.map_reverse]
  congr 2
  refine List.ext_getElem? fun i => ?_
  simp only [List.getElem?_map, List.getElem?_mapIdx, Option.map_map, arg_relabel]
  rfl

@[simp]
theorem hasContent_relabel (v? : Option Value) :
    hasContent (v?.map (Value.relabel g)) = hasContent v? := by
  cases v? with
  | none => rfl
  | some v =>
    cases v with
    | array m items =>
      rw [Option.map_some, relabel_array]
      exact congrArg not List.isEmpty_map
    | object m entries =>
      rw [Option.map_some, relabel_object]
      exact congrArg not List.isEmpty_map
    | _ => rfl

theorem nodeOutput?_relabel (nodes : Value) (name : String) :
    nodeOutput? (nodes.relabel g) name = (nodeOutput? nodes name).map (Value.relabel g) := by
  cases nodes with
  | object m entries =>
    rw [relabel_object]
    exact lookup_relabel entries name
  | _ => rfl

theorem displays_relabel (items : List Value) :
    (items.map (Value.relabel g)).map Value.display = items.map Value.display := by
  rw [List.map_map]
  exact List.map_congr_left fun v _ => v.display_relabel

theorem numbers_relabel (items : List Value) :
    (items.map (Value.relabel g)).map Value.toNumber = items.map Value.toNumber := by
  rw [List.map_map]
  exact List.map_congr_left fun v _ => v.toNumber_relabel

theorem head?_relabel {α : Type} {f : Value → α} (hf : ∀ v : Value, f (v.relabel g) = f v)
    (args : List Value) : (args.map (Value.relabel g)).head?.map f = args.head?.map f := by
  cases args with
  | nil => rfl
  | cons v args => exact congrArg some (hf v)

theorem nodeNames_relabel (args : List Value) :
    nodeNames (args.map (Value.relabel g)) = nodeNames args := by
  match args with
  | [] => rfl
  -- an array that is the only argument has the names in it
  | [v] =>
    cases v with
    | array m items =>
      rw [List.map_singleton, relabel_array]
      exact displays_relabel items
    | _ => exact displays_relabel [_]
  | v :: w :: rest =>
    have htail (v w : Value) (rest : List Value) :
        nodeNames (v :: w :: rest) = (v :: w :: rest).map Value.display := by
      cases v
      all_goals rfl
    rw [List.map_cons, List.map_cons, htail, htail, ← List.map_cons, ← List.map_cons,
      displays_relabel]

theorem relabel_nodeHelper (h : NodeHelper) (nodes : Value) (args : List Value) :
    (h.apply nodes args).relabel g = h.apply (nodes.relabel g) (args.map (Value.relabel g)) := by
  unfold NodeHelper.apply
  simp only [head?_relabel Value.display_relabel, nodeOutput?_relabel, nodeNames_relabel,
    hasContent_relabel, Option.isSome_map, arg_relabel]
  cases h with
  | isExecuted => rfl
  | hasData => rfl
  | getNodeData =>
    dsimp only
    cases nodeOutput? nodes ((args.head?.map Value.display).getD "") with
    | none => rfl
    | some v =>
      dsimp only [Option.map_some]
      rw [Value.isNullish_relabel]
      split
      · rfl
      · rfl
  | firstExecuted =>
    dsimp only
    have hout : nodeOutput? (nodes.relabel g) = Option.map (Value.relabel g) ∘ nodeOutput? nodes :=
      funext (nodeOutput?_relabel nodes)
    rw [← getD_relabel, List.map_findSome?, hout]

theorem radixOf_relabel (args : List Value) :
    radixOf (args.map (Value.relabel g)) = radixOf args := by
  unfold radixOf
  rw [List.getElem?_map]
  cases args[1]? with
  | none => rfl
  | some v =>
    dsimp only [Option.map_some]
    rw [Value.isNullish_relabel, Value.toNumber_relabel]

theorem part?_relabel (args : List Value) (i : Nat) (default : Int) :
    part? (args.map (Value.relabel g)) i default = part? args i default := by
  unfold part?
  rw [List.getElem?_map]
  cases args[i]? with
  | none => rfl
  | some v => exact congrArg Number.toInt? v.toNumber_relabel

theorem ofParts?_relabel (args : List Value) (firstMonth : Nat) :
    ofParts? (args.map (Value.relabel g)) firstMonth = ofParts? args firstMonth := by
  unfold ofParts? count?
  simp only [arg_relabel, Value.toNumber_relabel, part?_relabel]

theorem constructDate?_relabel (now : Time.Timestamp) (args : List Value) :
    constructDate? now (args.map (Value.relabel g)) = constructDate? now args := by
  match args with
  | [] => rfl
  | [v] =>
    cases v
    all_goals rfl
  | v :: w :: rest =>
    have htail (v w : Value) (rest : List Value) :
        constructDate? now (v :: w :: rest) = ofParts? (v :: w :: rest) 0 := by
      cases v
      all_goals rfl
    rw [List.map_cons, List.map_cons, htail, htail, ← List.map_cons, ← List.map_cons,
      ofParts?_relabel]

theorem pieces_relabel (s : List Char) (separator : Value) :
    pieces s (separator.relabel g) = pieces s separator := by
  refine missing_or_relabel (f := fun v => pieces s (.string v.display)) ?_ ?_ separator
  · intro v hv
    -- a separator counts by its text
    unfold pieces
    split
    · contradiction
    · rw [display_string]
  · intro v
    rw [Value.display_relabel]

theorem indentOf_relabel (v : Value) : indentOf (v.relabel g) = indentOf v := by
  cases v
  all_goals rfl

theorem charOfCode?_relabel (v : Value) : charOfCode? (v.relabel g) = charOfCode? v := by
  unfold charOfCode?
  rw [Value.toInteger_relabel]

theorem relabel_applyUnary (op : UnaryOp) (v : Value) :
    applyUnary op (v.relabel g) = applyUnary op v := by
  unfold applyUnary
  simp only [Value.isTruthy_relabel, Value.toNumber_relabel, Value.typeName_relabel]

theorem compare_relabel (holds : Ordering → Bool) (v w : Value) :
    compare holds (v.relabel g) (w.relabel g) = compare holds v w := by
  unfold compare
  rw [Value.toPrimitive_relabel, Value.toPrimitive_relabel]

theorem arithmetic_relabel (f : Float → Float → Float) (v w : Value) :
    arithmetic f (v.relabel g) (w.relabel g) = arithmetic f v w := by
  unfold arithmetic
  rw [Value.toNumber_relabel, Value.toNumber_relabel]

theorem findIdx?_relabel {p q : Value → Bool} (h : ∀ v : Value, q (v.relabel g) = p v)
    (items : List Value) : (items.map (Value.relabel g)).findIdx? q = items.findIdx? p := by
  rw [List.findIdx?_map]
  exact congrArg (List.findIdx? · items) (funext h)

theorem any_relabel {p q : Value → Bool} (h : ∀ v : Value, q (v.relabel g) = p v)
    (items : List Value) : (items.map (Value.relabel g)).any q = items.any p := by
  rw [List.any_map]
  exact congrArg items.any (funext h)

theorem lastPosition?_relabel {p q : Value → Bool} (h : ∀ v : Value, q (v.relabel g) = p v)
    (items : List Value) :
    lastPosition? q (items.map (Value.relabel g)) = lastPosition? p items := by
  unfold lastPosition?
  rw [← List.map_reverse, findIdx?_relabel h, List.length_map]

end Workflow.Eval
