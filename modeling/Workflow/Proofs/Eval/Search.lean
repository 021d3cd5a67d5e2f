import Workflow.Proofs.Eval.AlikeRun
import Workflow.Proofs.UnnamedRoots

/-! Searching an array and filtering it. A function that is called for the items is as good as a
table of truth values, since its results depend on its arguments alone. -/
namespace Workflow.Eval

variable {s : Setting} {n : Nat}

/-- The roots of the context were there before the mark with the number `n` was made. -/
def RootsMadeBefore (s : Setting) (n : Nat) : Prop :=
  ∀ x v, named? s.roots x = some v → v.MadeBefore n

/-- The roots of a context are there before anything is made. -/
theorem rootsMadeBefore_rootValues {roots : Fields Json} (hs : s.roots = rootValues roots)
    (n : Nat) : RootsMadeBefore s n := by
  intro x v hx
  rw [hs] at hx
  obtain ⟨key, j, -, rfl⟩ := exists_of_named?_rootValues hx
  intro g _ _
  exact relabel_ofJson _ j

/-- Calls with values from before the marks that are given out anew. -/
theorem calls_alike_of_madeBefore (hs : RootsMadeBefore s n) {f : Value} (hf : f.MadeBefore n)
    {given : List Value} (hg : ∀ v ∈ given, v.MadeBefore n) {ρ : Renaming} (hk : Keeps n ρ.map)
    (fuel fuel' : Nat) :
    ValuesAlike ρ s (callValue fuel f given) (callValue fuel' f given) := by
  have hroots : ρ.KeepsRoots s := fun x v hx => hs x v hx ρ.map ρ.injective hk
  have hcall := Alike.call_value hroots fuel fuel' f given
  rwa [hf ρ.map ρ.injective hk, relabel_madeBefore hg ρ.injective hk] at hcall

/-- Moves the marks from `n` on. -/
def Renaming.above (n distance top : Nat) : Renaming where
  map k := if k < n then k else k + distance
  injective := by
    intro a b hab
    dsimp only at hab
    split at hab
    all_goals
      split at hab
      all_goals omega
  low := n
  top := top
  distance := distance
  moves k hk _ := if_neg (Nat.not_lt.2 hk)

theorem Renaming.keeps_above (n distance top : Nat) : Keeps n (Renaming.above n distance top).map :=
  fun _ hk => if_pos hk

section

variable (hs : RootsMadeBefore s n) {f : Value} (hf : f.MadeBefore n) {given : List Value}
  (hg : ∀ v ∈ given, v.MadeBefore n) {fuel fuel' : Nat} {t t' u u' : Meter} {v w : Value}
include hs hf hg

theorem made_le_of_call (hv : callValue fuel f given s t = .ok v u) : t.made ≤ u.made :=
  (calls_alike_of_madeBefore hs hf hg (Renaming.keeps_above n 0 0) fuel fuel).grows hv

/-- A call that starts with more marks. -/
theorem alike_of_later_call (ht : n ≤ t.made) (htt : t.made ≤ t'.made)
    (hv : callValue fuel f given s t = .ok v u) (hw : callValue fuel' f given s t' = .ok w u') :
    ∃ g : Nat → Nat, Function.Injective g ∧ Keeps n g ∧ w = v.relabel g := by
  have hk := Renaming.keeps_above n (t'.made - t.made) u.made
  have hcall := calls_alike_of_madeBefore hs hf hg hk fuel fuel'
  have hmade : t'.made = t.made + (t'.made - t.made) := (Nat.add_sub_cancel' htt).symm
  exact ⟨_, Renaming.injective _, hk, (hcall.same hv hw ht (Nat.le_refl _) hmade).1⟩

/-- What a call yields depends on the function and its arguments, and not on what was used up
before. -/
theorem alike_of_calls (ht : n ≤ t.made) (ht' : n ≤ t'.made)
    (hv : callValue fuel f given s t = .ok v u) (hw : callValue fuel' f given s t' = .ok w u') :
    v.AlikeFrom n w := by
  rcases Nat.le_total t.made t'.made with htt | htt
  · obtain ⟨g, hgi, hgk, rfl⟩ := alike_of_later_call hs hf hg ht htt hv hw
    exact ⟨g, hgi, hgk, .inl rfl⟩
  · obtain ⟨g, hgi, hgk, rfl⟩ := alike_of_later_call hs hf hg ht' htt hw hv
    exact ⟨g, hgi, hgk, .inr rfl⟩

end

/-- Results have no marks that are still to be made, if the evaluation is not affected by giving
those out anew. -/
theorem madeBefore_of_alike {m : EvalM Value} {t u : Meter} {v : Value}
    (hm : ∀ ρ : Renaming, Keeps t.made ρ.map → ValuesAlike ρ s m m) (hv : m s t = .ok v u) :
    v.MadeBefore u.made := by
  intro g hgi hk
  have hgrows : t.made ≤ u.made :=
    (hm (Renaming.above t.made 0 0) (Renaming.keeps_above t.made 0 0)).grows hv
  -- the run is alike to itself when the marks behind its end are given out anew
  let ρ : Renaming := {
    map := g
    injective := hgi
    low := 0
    top := u.made
    distance := 0
    moves := fun k _ hlt => hk k hlt }
  have halike : ValuesAlike ρ s m m := hm ρ fun k hlt => hk k (Nat.lt_of_lt_of_le hlt hgrows)
  exact (halike.same hv hv (Nat.zero_le _) (Nat.le_refl _) rfl).1.symm

/-- What an expression yields was made before the end of the evaluation. -/
theorem madeBefore_of_eval {env : Env} {e : Expr} {fuel : Nat} {t u : Meter} {v : Value}
    (hs : RootsMadeBefore s t.made) (he : ∀ x ∈ env, x.2.MadeBefore t.made)
    (hv : eval (callValue fuel) env e s t = .ok v u) : v.MadeBefore u.made := by
  refine madeBefore_of_alike (fun ρ hk => ?_) hv
  have hroots : ρ.KeepsRoots s := fun x v hx => hs x v hx ρ.map ρ.injective hk
  have henv : env.map (relabelEntry ρ.map) = env := by
    calc env.map (relabelEntry ρ.map)
      _ = env.map id := List.map_congr_left fun x hx => by
        rw [relabelEntry, he x hx ρ.map ρ.injective hk]
        rfl
      _ = env := List.map_id env
  have hstep := Alike.step hroots (Alike.call_value hroots fuel fuel) env e
  rw [henv] at hstep
  exact hstep.as_value

/-- The items at the positions, counted from `i` on, at which `truth` holds. -/
def keptFrom (truth : Nat → Bool) (i : Nat) (items : List Value) : List Value :=
  ((items.zipIdx i).filter fun item => truth item.2).map (·.1)

theorem keptFrom_cons (truth : Nat → Bool) (i : Nat) (v : Value) (items : List Value) :
    keptFrom truth i (v :: items) =
      (if truth i then [v] else []) ++ keptFrom truth (i + 1) items := by
  unfold keptFrom
  rw [List.zipIdx_cons, List.filter_cons]
  split
  · rfl
  · rfl

/-- Called for one item after the other, a function has results that are as true as `truth` says. -/
inductive Answers (call : List Value → EvalM Value) (rest : Nat → List Value) (s : Setting)
    (truth : Nat → Bool) : Nat → List Value → Meter → Prop
  | nil {i : Nat} {t : Meter} : Answers call rest s truth i [] t
  | cons {i : Nat} {v w : Value} {items : List Value} {t u : Meter} :
    call (v :: rest i) s t = .ok w u → w.isTruthy = truth i →
      Answers call rest s truth (i + 1) items u → Answers call rest s truth i (v :: items) t

namespace Answers

variable {call : List Value → EvalM Value} {rest : Nat → List Value} {truth : Nat → Bool}
  {i : Nat} {items : List Value} {t : Meter}

theorem filter_from (h : Answers call rest s truth i items t) (done : List Value) :
    ∃ u, filterFrom call rest i done items s t =
      .ok (done.reverse ++ keptFrom truth i items) u := by
  induction h generalizing done with
  | @nil i t =>
    refine ⟨t, ?_⟩
    show EStateM.Result.ok done.reverse t = .ok (done.reverse ++ []) t
    rw [List.append_nil]
  | @cons i v w items t u hcall htruth _ ih =>
    obtain ⟨u', hu⟩ := ih (if w.isTruthy then v :: done else done)
    refine ⟨u', ?_⟩
    rw [filterFrom, run_bind, hcall]
    dsimp only
    rw [hu, htruth, keptFrom_cons]
    split
    · rw [List.reverse_cons, List.append_assoc]
    · rfl

/-- The search ends at the first item that is as true as it should be. -/
theorem search_from (h : Answers call rest s truth i items t) (wanted : Bool) :
    ∃ u, searchFrom call rest wanted i items s t =
      .ok (((items.zipIdx i).find? fun item => truth item.2 == wanted).map Prod.swap) u := by
  induction h with
  | @nil i t => exact ⟨t, rfl⟩
  | @cons i v w items t u hcall htruth _ ih =>
    rw [searchFrom, run_bind, hcall]
    dsimp only
    rw [htruth, run_ite, List.zipIdx_cons, List.find?_cons]
    by_cases hw : truth i = wanted
    · rw [if_pos hw, beq_iff_eq.2 hw]
      exact ⟨u, rfl⟩
    · rw [if_neg hw, beq_false_of_ne hw]
      exact ih

/-- A function that does not fail for any of the items has answers. -/
theorem of_map_from {results : List Value} {u : Meter} {done : List Value}
    (hcalls : ∀ k v, items[k]? = some v → ∀ t w u, n ≤ t.made →
      call (v :: rest (i + k)) s t = .ok w u → w.isTruthy = truth (i + k) ∧ n ≤ u.made)
    (ht : n ≤ t.made) (h : mapFrom call rest i done items s t = .ok results u) :
    Answers call rest s truth i items t := by
  induction items generalizing i done t with
  | nil => exact .nil
  | cons v items ih =>
    obtain ⟨w, t₁, hw, hrest⟩ := exists_of_bind h
    obtain ⟨htruth, ht₁⟩ := hcalls 0 v rfl t w t₁ ht hw
    -- the other items are counted from the next position on
    refine .cons hw htruth (ih (fun k v' hv' => ?_) ht₁ hrest)
    have hposition : i + 1 + k = i + (k + 1) := by omega
    rw [hposition]
    exact hcalls (k + 1) v' hv'

end Answers

/-- The searching methods find what is left of the array, and filtering leaves the items at which
`truth` holds. -/
structure MatchesFilter (call : Caller) (s : Setting) (t : Meter) (mark : Mark)
    (items args : List Value) (truth : Nat → Bool) : Prop where
  filter : ∃ m u, arrayMethod call mark items .filter args s t =
    .ok (.array m (keptFrom truth 0 items)) u
  some : ∃ u, arrayMethod call mark items .some args s t =
    .ok (.bool !(keptFrom truth 0 items).isEmpty) u
  every : ∃ u, arrayMethod call mark items .every args s t =
    .ok (.bool ((keptFrom truth 0 items).length == items.length)) u
  find : ∃ u, arrayMethod call mark items .find args s t =
    .ok ((keptFrom truth 0 items).head?.getD .undefined) u
  findIndex : ∃ u, arrayMethod call mark items .findIndex args s t =
    .ok (orMinusOne ((List.range items.length).find? truth)) u

section

variable (truth : Nat → Bool) (items : List Value)

theorem head?_kept : (keptFrom truth 0 items).head? =
    ((items.zipIdx.find? fun item => truth item.2 == true).map Prod.swap).map (·.2) := by
  unfold keptFrom
  rw [List.head?_map, List.head?_filter, Option.map_map]
  simp only [beq_true]
  rfl

theorem isEmpty_kept : (!(keptFrom truth 0 items).isEmpty) =
    ((items.zipIdx.find? fun item => truth item.2 == true).map Prod.swap).isSome := by
  rw [← Option.isSome_map, ← head?_kept]
  cases keptFrom truth 0 items
  all_goals rfl

theorem length_kept : ((keptFrom truth 0 items).length == items.length) =
    ((items.zipIdx.find? fun item => truth item.2 == false).map Prod.swap).isNone := by
  have hlength : items.length = items.zipIdx.length := List.length_zipIdx.symm
  -- both say that no item is left out
  rw [Option.isNone_map, Bool.eq_iff_iff, beq_iff_eq, Option.isNone_iff_eq_none,
    List.find?_eq_none, keptFrom, List.length_map, hlength, List.length_filter_eq_length_iff]
  simp

theorem find?_range : (List.range items.length).find? truth =
    ((items.zipIdx.find? fun item => truth item.2 == true).map Prod.swap).map (·.1) := by
  have hrange : List.range items.length = items.zipIdx.map (·.2) := by
    rw [List.zipIdx_map_snd, List.range_eq_range']
  rw [hrange, List.find?_map, Option.map_map]
  simp only [beq_true]
  rfl

end

namespace Answers

variable {call : Caller} {mark : Mark} {items args : List Value} {truth : Nat → Bool} {t : Meter}

/-- The methods give the first argument the item, its position and the array. -/
theorem matchesFilter (hf : (Value.arg args 0).isFunction)
    (h : Answers (call (.arg args 0)) (fun i => [.ofNat i, .array mark items]) s truth 0 items t) :
    MatchesFilter call s t mark items args truth := by
  have hcallback (role : String) : callback args 0 role = pure (Value.arg args 0) := by
    unfold callback
    rw [if_pos hf]
  -- three of the methods look for an item that is true, the fourth for one that is not
  obtain ⟨u, hfilter⟩ := h.filter_from []
  obtain ⟨u₁, hfound⟩ := h.search_from true
  obtain ⟨u₂, hmissed⟩ := h.search_from false
  refine ⟨?_, ?_, ?_, ?_, ?_⟩
  · refine ⟨{ origin := .made u.made }, { u with made := u.made + 1 }, ?_⟩
    simp only [arrayMethod, hcallback, pure_bind, run_bind, hfilter]
    rfl
  · refine ⟨u₁, ?_⟩
    simp only [arrayMethod, hcallback, pure_bind, run_bind, hfound, isEmpty_kept]
    rfl
  · refine ⟨u₂, ?_⟩
    simp only [arrayMethod, hcallback, pure_bind, run_bind, hmissed, length_kept]
    rfl
  · refine ⟨u₁, ?_⟩
    simp only [arrayMethod, hcallback, pure_bind, run_bind, hfound, head?_kept]
    rfl
  · refine ⟨u₁, ?_⟩
    simp only [arrayMethod, hcallback, pure_bind, run_bind, hfound, find?_range]
    rfl

end Answers

/-- Whatever was used up before, the function yields the same for arguments from before the mark
with the number `n`, up to the marks that are made in the call. -/
def DependsOnArguments (s : Setting) (n : Nat) (f : Value) : Prop :=
  ∀ given : List Value, (∀ v ∈ given, v.MadeBefore n) →
    ∀ (fuel fuel' : Nat) (t t' u u' : Meter) (v w : Value), n ≤ t.made → n ≤ t'.made →
      callValue fuel f given s t = .ok v u → callValue fuel' f given s t' = .ok w u' →
        v.AlikeFrom n w

/-- Whatever was used up before, the function is as true for the items of an array as `truth`
says. -/
def AnswersAs (s : Setting) (n : Nat) (f : Value) (mark : Mark) (items : List Value)
    (truth : Nat → Bool) : Prop :=
  ∀ i v, items[i]? = some v → ∀ (fuel : Nat) (t u : Meter) (w : Value), n ≤ t.made →
    callValue fuel f [v, .ofNat i, .array mark items] s t = .ok w u → w.isTruthy = truth i

/-- From the meter `t` on the function can be called for all items of an array in turn. -/
def NeverFails (s : Setting) (t : Meter) (fuel : Nat) (f : Value) (mark : Mark)
    (items : List Value) : Prop :=
  ∃ results u, mapFrom (callValue fuel f) (fun i => [.ofNat i, .array mark items]) 0 [] items s t =
    .ok results u

section

variable (hs : RootsMadeBefore s n) {f : Value} (hf : f.MadeBefore n) {mark : Mark}
  {items : List Value} (ha : (Value.array mark items).MadeBefore n)
include ha

theorem madeBefore_given {i : Nat} {v : Value} (hv : items[i]? = some v) :
    ∀ w ∈ [v, .ofNat i, .array mark items], w.MadeBefore n := by
  have hitem : v.MadeBefore n := madeBefore_items ha (List.mem_of_getElem? hv)
  have hposition : (Value.ofNat i).MadeBefore n := fun _ _ _ => rfl
  exact List.forall_mem_cons.2 ⟨hitem, List.forall_mem_cons.2
    ⟨hposition, List.forall_mem_singleton.2 ha⟩⟩

include hs hf

open Classical in
theorem exists_answersAs : ∃ truth, AnswersAs s n f mark items truth := by
  -- one true result of any call tells all others
  let truth (i : Nat) : Bool := decide (∃ v fuel t u w, items[i]? = some v ∧ n ≤ Meter.made t ∧
    callValue fuel f [v, .ofNat i, .array mark items] s t = .ok w u ∧ w.isTruthy)
  refine ⟨truth, fun i v hv fuel t u w ht hw => ?_⟩
  have hgiven := madeBefore_given ha hv
  rw [Bool.eq_iff_iff, decide_eq_true_iff]
  constructor
  · exact fun htruthy => ⟨v, fuel, t, u, w, hv, ht, hw, htruthy⟩
  · rintro ⟨v', fuel', t', u', w', hv', ht', hw', htruthy⟩
    obtain rfl : v = v' := Option.some.inj (hv.symm.trans hv')
    rw [← htruthy]
    exact (alike_of_calls hs hf hgiven ht' ht hw' hw).isTruthy_eq

theorem answers_of_neverFails {truth : Nat → Bool} (htruth : AnswersAs s n f mark items truth)
    {fuel : Nat} {t : Meter} (ht : n ≤ t.made) (h : NeverFails s t fuel f mark items) :
    Answers (callValue fuel f) (fun i => [.ofNat i, .array mark items]) s truth 0 items t := by
  obtain ⟨results, u, hmap⟩ := h
  refine .of_map_from (n := n) (fun k v hv t w u ht hw => ?_) ht hmap
  rw [Nat.zero_add] at hw ⊢
  have hgrows : t.made ≤ u.made := made_le_of_call hs hf (madeBefore_given ha hv) hw
  exact ⟨htruth k v hv fuel t u w ht hw, Nat.le_trans ht hgrows⟩

end

/-- The searching methods of an array agree with filtering it. The results of a function depend on
its arguments alone, so one table of truth values tells what all of the methods find, each from any
meter from which no call of the function fails. -/
theorem search_methods_agree (hs : RootsMadeBefore s n) {mark : Mark} {items args : List Value}
    (ha : (Value.array mark items).MadeBefore n) (hf : (Value.arg args 0).MadeBefore n)
    (hfun : (Value.arg args 0).isFunction) :
    DependsOnArguments s n (.arg args 0) ∧
    ∃ truth, AnswersAs s n (.arg args 0) mark items truth ∧
      ∀ fuel t, n ≤ t.made → NeverFails s t fuel (.arg args 0) mark items →
        MatchesFilter (callValue fuel) s t mark items args truth := by
  constructor
  · intro given hg fuel fuel' t t' u u' v w ht ht' hv hw
    exact alike_of_calls hs hf hg ht ht' hv hw
  · obtain ⟨truth, htruth⟩ := exists_answersAs hs hf ha
    refine ⟨truth, htruth, fun fuel t ht h => ?_⟩
    exact (answers_of_neverFails hs hf ha htruth ht h).matchesFilter hfun

/-- A context with some texts, and one of them once more. -/
def inTexts : Context :=
  .forItem (.object [("texts", .array [.string "a", .string "b"]), ("unwanted", .string "a")])

def textsSetting : Setting :=
  { plainSetting with roots := rootValues inTexts.roots }

/-- `$json.texts` -/
def textsExpr : Expr :=
  .member (.name "$json") "texts" false

/-- `v => v !== $json.unwanted` -/
def wantedExpr : Expr :=
  .arrow ["v"] (.binary .strictNotEq (.name "v") (.member (.name "$json") "unwanted" false))

/-- The function looks at the context whenever it is called. -/
theorem search_among_texts : ∃ mark f truth t u,
    eval (callValue 1) [] textsExpr textsSetting {} =
        .ok (.array mark [.string "a", .string "b"]) t ∧
      eval (callValue 1) [] wantedExpr textsSetting t = .ok f u ∧
      truth 0 = false ∧ truth 1 = true ∧
      MatchesFilter (callValue 1) textsSetting u mark [.string "a", .string "b"] [f] truth := by
  have hroots : textsSetting.roots = rootValues inTexts.roots := rfl
  have hs : RootsMadeBefore textsSetting 0 := rootsMadeBefore_rootValues hroots 0
  let mark : Mark := { origin := .root "$json", place := [0] }
  let f : Value := .func (.closure ["v"]
    (.binary .strictNotEq (.name "v") (.member (.name "$json") "unwanted" false)) [])
  have htexts : eval (callValue 1) [] textsExpr textsSetting {} =
      .ok (.array mark [.string "a", .string "b"]) { ticks := 2 } := rfl
  have hwanted : eval (callValue 1) [] wantedExpr textsSetting { ticks := 2 } =
      .ok f { ticks := 3 } := rfl
  have ha : (Value.array mark [.string "a", .string "b"]).MadeBefore 0 :=
    madeBefore_of_eval hs (List.forall_mem_nil _) htexts
  have hf : f.MadeBefore 0 := madeBefore_of_eval hs (List.forall_mem_nil _) hwanted
  obtain ⟨-, truth, htruth, hagree⟩ :=
    search_methods_agree hs ha (show (Value.arg [f] 0).MadeBefore 0 from hf) rfl
  refine ⟨mark, f, truth, _, _, htexts, hwanted, ?_, ?_, hagree 1 _ (Nat.le_refl 0) ⟨_, _, rfl⟩⟩
  · exact (htruth 0 (.string "a") rfl 1 { ticks := 3 } _ (.bool false) (Nat.le_refl 0) rfl).symm
  · exact (htruth 1 (.string "b") rfl 1 { ticks := 3 } _ (.bool true) (Nat.le_refl 0) rfl).symm

end Workflow.Eval
