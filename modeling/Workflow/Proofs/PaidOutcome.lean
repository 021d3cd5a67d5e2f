import Workflow.Proofs.Eval.PayingRun
import Workflow.Proofs.Evaluate
import Workflow.Proofs.UnnamedRoots

/-! The outcome of a text is no larger than the budget, the context and the text together, if nothing
is handed back more often than it was paid for. -/
namespace Workflow

open Eval

/-- The items, entries and bytes of text in a root of a context. -/
def ContextRoot.size (ctx : Context) (r : ContextRoot) : Nat :=
  (r.value ctx).size

/-- The items, entries and bytes of text in all roots of a context. -/
def Context.size (ctx : Context) : Nat :=
  (ContextRoot.all.map (ContextRoot.size ctx)).sum

namespace Context

theorem value_of_get?_roots {ctx : Context} {key : String} {j : Json}
    (h : Fields.get? ctx.roots key = some j) : ∃ r : ContextRoot, r.key = key ∧ r.value ctx = j := by
  have hmem : (key, j) ∈ ctx.roots := Fields.mem_of_lookup h
  rw [roots_eq_map] at hmem
  obtain ⟨r, -, hr⟩ := List.mem_map.1 hmem
  exact ⟨r, (Prod.mk.inj hr).1, (Prod.mk.inj hr).2⟩

end Context

namespace ContextRoot

theorem mem_all (r : ContextRoot) : r ∈ all := by
  cases r
  all_goals decide

end ContextRoot

section

variable {ctx : Context} {roots : Fields Json} (hi : ctx.isolate? = some roots) {n : Nat}
include hi

/-- A value of a root is as large as the root. -/
theorem size_rootValue {key : String} {v : Value} (hv : rootValue? roots key = some v) :
    ∃ r : ContextRoot, r.key = key ∧ v.size n = r.size ctx := by
  obtain ⟨j', hj', rfl⟩ := Option.map_eq_some_iff.1 hv
  have hread := Json.get?_rereadEntries? hi key
  rw [hj'] at hread
  obtain ⟨j, hj, hj'⟩ := Option.map_eq_some_iff.1 hread
  obtain ⟨r, hr, rfl⟩ := Context.value_of_get?_roots hj
  exact ⟨r, hr, (Value.size_ofJson _ _).trans (Json.size_reread? hj')⟩

/-- So is the value of a name by which expressions get at a root. -/
theorem size_named {x : String} {v : Value} (hv : named? (rootValues roots) x = some v) :
    ∃ r : ContextRoot, x ∈ r.names ∧ v.size n = r.size ctx := by
  have hroot (hv : rootValue? roots x = some v) :
      ∃ r : ContextRoot, x ∈ r.names ∧ v.size n = r.size ctx := by
    obtain ⟨r, rfl, hsize⟩ := size_rootValue hi hv
    exact ⟨r, r.key_mem_names, hsize⟩
  rw [named?_rootValues] at hv
  split at hv
  -- the second name of the current item
  · rename_i hx
    rcases Option.or_eq_some_iff.1 hv with hv | ⟨-, hv⟩
    · obtain ⟨r, hr, hsize⟩ := size_rootValue hi hv
      refine ⟨r, ?_, hsize⟩
      rw [hx]
      cases r
      case json => decide
      all_goals exact absurd hr (by decide)
    · exact hroot hv
  · exact hroot hv

/-- Other names stand for values that are not counted, but for the functions that look at the
outputs of nodes. -/
theorem size_lookup_le_withRoots {s : Setting} (hs : s.roots = rootValues roots) {w : Scale}
    {x : String} {v : Value} (hx : Scale.strange.name x = 0) (hv : lookup? s [] x = some v) :
    v.size ctx.node.toJson.size ≤
      (w.withRoots (ContextRoot.size ctx) ContextRoot.all).name x := by
  have hhelpers : ∀ e ∈ Native.globals, e.2.isHelper = true → e.1 ∈ ContextRoot.node.names := by
    decide
  have hcount (r : ContextRoot) (hr : x ∈ r.names) : r.size ctx ≤
      (w.withRoots (ContextRoot.size ctx) ContextRoot.all).name x :=
    Scale.le_name_withRoots r.mem_all hr
  unfold lookup? at hv
  rw [hs] at hv
  split at hv
  · rename_i u hu
    cases hu
  · split at hv
    · rename_i u hu
      cases hv
      obtain ⟨r, hr, hsize⟩ := size_named hi hu
      rw [hsize]
      exact hcount r hr
    · split at hv
      · exact absurd hx (by decide)
      · exact absurd hx (by decide)
      · cases hv
        exact Nat.zero_le _
      · cases hv
        exact Nat.zero_le _
      · unfold global? at hv
        split at hv
        · cases hv
          exact Nat.zero_le _
        · obtain ⟨f, hf, rfl⟩ := Option.map_eq_some_iff.1 hv
          show (if f.isHelper = true then _ else 0) ≤ _
          split
          · rename_i hhelper
            exact hcount .node (hhelpers _ (Fields.mem_of_lookup hf) hhelper)
          · exact Nat.zero_le _

end

open scoped Classical in
/-- The bytes of a key that is not written as a number. -/
noncomputable def wordBytes (key : String) : Nat :=
  if ∃ x, key = Number.display x then 0 else key.utf8ByteSize

theorem keyMeasure_wordBytes : KeyMeasure wordBytes where
  number x := if_pos ⟨x, rfl⟩
  le_bytes key := by
    unfold wordBytes
    split
    · exact Nat.zero_le _
    · exact Nat.le_refl _

/-- Nothing is handed back more often than it was paid for when an expression is run: its value takes
over each root at most once, and neither points in time, nor names of kinds of values, nor keys that
are written as numbers; and no function that charges too little returns more in a call of the
expression itself than was charged meanwhile and than it was given. -/
structure PaidFor (s : Setting) (n : Nat) (e : Expr) : Prop where
  roots : ∀ r : ContextRoot, e.taken (.root r) ≤ 1
  strange : e.taken .strange = 0
  keys : ∀ x : Float, .key (Number.display x) ∉ e.texts
  calls : ∀ stop, runPaid n stop e s {} = Eval.run e s {}

theorem size_of_ofValue?_le {n : Nat} {v : Value} {outcome : Outcome}
    (h : Outcome.ofValue? v = some outcome) : outcome.toJson.size ≤ v.size n := by
  unfold Outcome.ofValue? at h
  split at h
  · obtain rfl := Option.some.inj h
    exact utf8ByteSize_le_momentBytes List.mem_cons_self
  · obtain ⟨j, hj, rfl⟩ := Option.map_eq_some_iff.1 h
    exact Value.size_toJson?_le hj

/-- What the value of an expression takes over is no larger than its text and the context. -/
theorem taken_le_of_parse {limit : Nat} {source : String} {e : Expr}
    (hp : Expr.parse limit source = .ok e) (hroots : ∀ r : ContextRoot, e.taken (.root r) ≤ 1)
    (ctx : Context) :
    e.taken ((Scale.texts wordBytes).withRoots (ContextRoot.size ctx) ContextRoot.all) ≤
      source.utf8ByteSize + ctx.size := by
  have htexts : e.taken (.texts wordBytes) ≤ source.utf8ByteSize :=
    calc e.taken (.texts wordBytes) ≤ e.textBytes wordBytes := Expr.taken_texts_le e
      _ ≤ source.utf8ByteSize := Parser.textBytes_parse keyMeasure_wordBytes hp
  have hsum : (ContextRoot.all.map fun r => r.size ctx * e.taken (.root r)).sum ≤ ctx.size := by
    refine List.sum_le_sum fun r _ => ?_
    calc r.size ctx * e.taken (.root r) ≤ r.size ctx * 1 := Nat.mul_le_mul_left _ (hroots r)
      _ = r.size ctx := Nat.mul_one _
  refine Nat.le_trans (Expr.taken_withRoots_le _ _ _ e) ?_
  exact Nat.add_le_add htexts hsum

theorem size_of_runIn_le {ctx : Context} {roots : Fields Json} (hi : ctx.isolate? = some roots)
    {s : Setting} (hs : s.roots = rootValues roots)
    (hl : s.limits.maxTotalElements < Number.maxSize) {limit : Nat} {source : String} {e : Expr}
    (hp : Expr.parse limit source = .ok e) (he : PaidFor s ctx.node.toJson.size e)
    {outcome : Outcome} (h : runIn s e = .ok outcome) :
    outcome.toJson.size ≤ s.limits.maxTotalElements + ctx.size + source.utf8ByteSize := by
  obtain ⟨v, t, hrun, ho⟩ := exists_of_runIn h
  -- every text that is written in the expression counts its bytes
  have hcounts :
      ((Scale.texts wordBytes).withRoots (ContextRoot.size ctx) ContextRoot.all).Counts e.texts := by
    intro x hx
    rw [Scale.text_withRoots]
    cases x with
    | literal text => exact Nat.le_refl _
    | key key =>
      have hword : wordBytes key = key.utf8ByteSize :=
        if_neg fun ⟨x, hkey⟩ => he.keys x (hkey ▸ hx)
      exact Nat.le_of_eq hword.symm
  have hnode : ∀ v, named? s.roots "$node" = some v →
      v.size ctx.node.toJson.size ≤ ctx.node.toJson.size := by
    intro v hv
    rw [hs] at hv
    obtain ⟨r, hr, hsize⟩ := size_named hi hv
    rw [hsize]
    cases r
    case node => exact Nat.le_refl _
    all_goals exact absurd hr (by decide)
  have hstop : Pays s (Value.size ctx.node.toJson.size) 0 (exceed .fuel) := .fail
  have hpaid := run_paid_pays hl hnode (fun x v => size_lookup_le_withRoots hi hs) hstop hcounts
    he.strange
  have hresult : runPaid ctx.node.toJson.size (exceed .fuel) e s {} = .ok v t :=
    (he.calls _).trans hrun
  obtain ⟨hsize, hcharged⟩ := hpaid {} v t (Nat.zero_le _) hresult
  calc outcome.toJson.size ≤ v.size ctx.node.toJson.size := size_of_ofValue?_le ho
    _ ≤ t.allocated + e.taken _ := hsize
    _ ≤ s.limits.maxTotalElements + (source.utf8ByteSize + ctx.size) :=
      Nat.add_le_add hcharged (taken_le_of_parse hp he.roots ctx)
    _ = s.limits.maxTotalElements + ctx.size + source.utf8ByteSize := by omega

/-- The outcome of a text is no larger than the budget, the context and the text together, unless
something is handed back that was not paid for. -/
theorem evaluate_size_le {limits : Limits} (hl : limits.maxTotalElements < Number.maxSize)
    {source : String} {ctx : Context} {now : Time.Timestamp} {elapsed : Nat → Nat}
    {zones : Time.ZoneDatabase}
    (hpaid : ∀ roots e, ctx.isolate? = some roots → Expr.parse limits.maxDepth source = .ok e →
      PaidFor { limits, now, roots := rootValues roots, elapsed, zones } ctx.node.toJson.size e)
    {outcome : Outcome} (h : evaluate limits now source ctx elapsed zones = .ok outcome) :
    outcome.toJson.size ≤ limits.maxTotalElements + ctx.size + source.utf8ByteSize := by
  obtain ⟨roots, e, hi, hp, hrun⟩ := exists_of_evaluate h
  exact size_of_runIn_le hi rfl hl hp (hpaid roots e hi hp) hrun

/-- The ids of rows. -/
def idsText : String :=
  "$json.rows.map(r => r.id)"

def idsExpr : Expr :=
  .call (.member (.member (.name "$json") "rows" false) "map" false)
    [.arrow ["r"] (.member (.name "r") "id" false)] false

theorem parse_idsText : Expr.parse 64 idsText = .ok idsExpr := by
  with_unfolding_all rfl

/-- A context with two rows. -/
def inRows : Context :=
  .forItem (.object [("rows", .array [.object [("id", .string "a")], .object [("id", .string "b")]])])

/-- A budget of ten. -/
def smallSetting (ctx : Context) : Setting :=
  { limits := { maxTotalElements := 10 }, now := ⟨0, 0⟩, roots := rootValues ctx.roots,
    zones := .known }

/-- The call charges for both ids. -/
theorem paidFor_idsExpr : PaidFor (smallSetting inRows) 0 idsExpr where
  roots r := by
    cases r
    all_goals decide
  strange := by decide
  keys x h := by cases h
  calls stop := by
    obtain ⟨v, t, hpaid, hrun⟩ : ∃ v t, runPaid 0 stop idsExpr (smallSetting inRows) {} = .ok v t ∧
        Eval.run idsExpr (smallSetting inRows) {} = .ok v t :=
      ⟨_, _, rfl, rfl⟩
    rw [hpaid, hrun]

theorem evaluate_ids_size_le :
    (smallSetting inRows).limits.maxTotalElements < Number.maxSize ∧
      evaluate (smallSetting inRows).limits ⟨0, 0⟩ idsText inRows =
        .ok (.plain (.array [.string "a", .string "b"])) ∧
      (Outcome.plain (.array [.string "a", .string "b"])).toJson.size ≤
        (smallSetting inRows).limits.maxTotalElements + inRows.size + idsText.utf8ByteSize := by
  have hl : (smallSetting inRows).limits.maxTotalElements < Number.maxSize := by decide
  have hs : Screen.issues 10000 idsText = [] := by decide +kernel
  have he : evaluate (smallSetting inRows).limits ⟨0, 0⟩ idsText inRows =
      .ok (.plain (.array [.string "a", .string "b"])) :=
    (evaluate_eq_runIn hs rfl parse_idsText _ _ _).trans rfl
  refine ⟨hl, he, evaluate_size_le hl (fun roots e hi hp => ?_) he⟩
  have hroots : inRows.isolate? = some inRows.roots := rfl
  obtain rfl := Option.some.inj (hroots.symm.trans hi)
  obtain rfl := Except.ok.inj (parse_idsText.symm.trans hp)
  exact paidFor_idsExpr

/-- The text of a large number. -/
def largeText : String :=
  "String(1e300)"

def largeNumber : Float :=
  Number.ofDecimal 1 300

def largeExpr : Expr :=
  .call (.name "String") [.literal (.number largeNumber)] false

theorem parse_largeText : Expr.parse 64 largeText = .ok largeExpr := by
  with_unfolding_all rfl

/-- A conversion to a text charges nothing: the outcome has 301 bytes, with a budget of ten, an empty
context, and a text of 13. -/
theorem evaluate_large_size :
    (smallSetting {}).limits.maxTotalElements < Number.maxSize ∧
      ∃ outcome, evaluate (smallSetting {}).limits ⟨0, 0⟩ largeText {} = .ok outcome ∧
        (smallSetting {}).limits.maxTotalElements + ({} : Context).size + largeText.utf8ByteSize <
          outcome.toJson.size := by
  have hs : Screen.issues 10000 largeText = [] := by decide +kernel
  have he : evaluate (smallSetting {}).limits ⟨0, 0⟩ largeText {} =
      .ok (.plain (.string (Value.number largeNumber).display)) :=
    (evaluate_eq_runIn hs rfl parse_largeText _ _ _).trans rfl
  refine ⟨by decide, _, he, ?_⟩
  have hbytes : (Value.number largeNumber).display.utf8ByteSize = 301 := by decide +kernel
  show _ < (Value.number largeNumber).display.utf8ByteSize
  rw [hbytes]
  decide

end Workflow
