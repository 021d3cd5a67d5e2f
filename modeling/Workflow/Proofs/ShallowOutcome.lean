import Workflow.Proofs.Eval.ShallowRun
import Workflow.Proofs.Evaluate
import Workflow.Proofs.Json.Nesting
import Workflow.Proofs.UnnamedRoots

/-! How deep the outcome of a text is nested: the limit to depth bounds it in so far as calls do not
carry nested collections over from one to the next. -/
namespace Workflow

open Eval

/-- How deep the deepest root of a context is nested. -/
def Context.nesting (ctx : Context) : Nat :=
  Json.nestingEntries ctx.roots

/-- The outputs of the nodes are an object. -/
theorem Context.one_le_nesting (ctx : Context) : 1 ≤ ctx.nesting := by
  have hnode : ("$node", ctx.node.toJson) ∈ ctx.roots := by
    unfold Context.roots
    simp only [List.mem_cons, true_or, or_true]
  calc 1 ≤ ctx.node.toJson.nesting := Nat.le_add_left 1 _
    _ ≤ ctx.nesting := Json.nesting_le_of_mem_entries hnode

theorem shallow_rootValues {ctx : Context} {roots : Fields Json} (hi : ctx.isolate? = some roots)
    {name : String} {v : Value} (hv : named? (rootValues roots) name = some v) :
    Shallow ctx.nesting v := by
  obtain ⟨key, j, hj, rfl⟩ := exists_of_named?_rootValues hv
  have hroots : Json.nestingEntries roots = ctx.nesting := Json.nestingEntries_rereadEntries? hi
  rw [Shallow, Value.nesting_ofJson, ← hroots]
  exact Json.nesting_le_of_mem_entries (Fields.mem_of_lookup hj)

theorem nesting_of_ofValue?_le {v : Value} {outcome : Outcome}
    (h : Outcome.ofValue? v = some outcome) : outcome.toJson.nesting ≤ v.nesting := by
  unfold Outcome.ofValue? at h
  split at h
  · obtain rfl := Option.some.inj h
    exact Nat.le_refl _
  · obtain ⟨j, hj, rfl⟩ := Option.map_eq_some_iff.1 h
    exact Value.nesting_toJson?_le hj

theorem Limits.nesting_le (l : Limits) : l.nesting ≤ 4 * l.maxDepth := by
  rw [Nat.mul_comm]
  exact Nat.mod_le _ _

/-- When an expression is run, no call carries a collection over that is nested deeper than
`carried` levels: not as an argument or a variable that a function of the expression sees, not from
a function of the language to another one whose callback it is, and not out of a text. -/
def CarriesUpTo (s : Setting) (carried : Nat) (e : Expr) : Prop :=
  ∀ stop, runShallow stop carried e s {} = Eval.run e s {}

theorem nesting_of_runIn_le {s : Setting} {carried : Nat} (hs : s.Shallow carried) {e : Expr}
    (he : CarriesUpTo s carried e) {outcome : Outcome} (h : runIn s e = .ok outcome) :
    outcome.toJson.nesting ≤ 4 * s.limits.maxDepth + carried := by
  obtain ⟨v, t, hrun, ho⟩ := exists_of_runIn h
  have hresult : runShallow (exceed .fuel) carried e s {} = .ok v t := (he _).trans hrun
  obtain ⟨-, hv⟩ := run_shallow Ensures.fail hs e {} v t rfl hresult
  calc outcome.toJson.nesting ≤ v.nesting := nesting_of_ofValue?_le ho
    _ ≤ carried + s.limits.nesting := hv
    _ ≤ carried + 4 * s.limits.maxDepth := Nat.add_le_add_left s.limits.nesting_le carried
    _ = 4 * s.limits.maxDepth + carried := Nat.add_comm _ _

/-- An evaluation adds at most four levels for each level of the limit to depth to what is nested
deepest among the context and what calls carry over. -/
theorem nesting_of_evaluate_le {limits : Limits} {source : String} {ctx : Context}
    {now : Time.Timestamp} {elapsed : Nat → Nat} {zones : Time.ZoneDatabase} {carried : Nat}
    (hctx : ctx.nesting ≤ carried)
    (hcarried : ∀ roots e, ctx.isolate? = some roots → Expr.parse limits.maxDepth source = .ok e →
      CarriesUpTo { limits, now, roots := rootValues roots, elapsed, zones } carried e)
    {outcome : Outcome} (h : evaluate limits now source ctx elapsed zones = .ok outcome) :
    outcome.toJson.nesting ≤ 4 * limits.maxDepth + carried := by
  obtain ⟨roots, e, hi, hp, hrun⟩ := exists_of_evaluate h
  have hs : Setting.Shallow { limits, now, roots := rootValues roots, elapsed, zones } carried :=
    { one := Nat.le_trans ctx.one_le_nesting hctx
      roots := fun name v hv => (shallow_rootValues hi hv).deeper hctx }
  exact nesting_of_runIn_le hs (hcarried roots e hi hp) hrun

/-- The outcome of a text is nested no deeper than four times the limit to depth and the context
together, unless calls carry something over that is nested deeper than the context. -/
theorem evaluate_nesting_le {limits : Limits} {source : String} {ctx : Context}
    {now : Time.Timestamp} {elapsed : Nat → Nat} {zones : Time.ZoneDatabase}
    (hcarried : ∀ roots e, ctx.isolate? = some roots → Expr.parse limits.maxDepth source = .ok e →
      CarriesUpTo { limits, now, roots := rootValues roots, elapsed, zones } ctx.nesting e)
    {outcome : Outcome} (h : evaluate limits now source ctx elapsed zones = .ok outcome) :
    outcome.toJson.nesting ≤ 4 * limits.maxDepth + ctx.nesting :=
  nesting_of_evaluate_le (Nat.le_refl _) hcarried h

/-- Limits to four levels of depth. -/
def flatSetting (ctx : Context) : Setting :=
  { limits := { maxDepth := 4 }, now := ⟨0, 0⟩, roots := rootValues ctx.roots,
    zones := .known }

/-- Every row in an array of its own. -/
def wrapText : String :=
  "$json.map(r => [r])"

def wrapExpr : Expr :=
  .call (.member (.name "$json") "map" false) [.arrow ["r"] (.array [.name "r"])] false

theorem parse_wrapText : Expr.parse 4 wrapText = .ok wrapExpr := by
  with_unfolding_all rfl

/-- A context with an empty row. -/
def inEmptyRow : Context :=
  .forItem (.array [.object []])

/-- The function sees the row, its position and the array of rows, all of them in the context. -/
theorem carriesUpTo_wrapExpr :
    CarriesUpTo (flatSetting inEmptyRow) inEmptyRow.nesting wrapExpr := by
  intro stop
  obtain ⟨v, t, hshallow, hrun⟩ : ∃ v t,
      runShallow stop inEmptyRow.nesting wrapExpr (flatSetting inEmptyRow) {} = .ok v t ∧
        Eval.run wrapExpr (flatSetting inEmptyRow) {} = .ok v t :=
    ⟨_, _, rfl, rfl⟩
  rw [hshallow, hrun]

theorem evaluate_wrapped_nesting_le :
    (∀ roots e, inEmptyRow.isolate? = some roots → Expr.parse 4 wrapText = .ok e →
      CarriesUpTo { flatSetting inEmptyRow with roots := rootValues roots }
        inEmptyRow.nesting e) ∧
      evaluate (flatSetting inEmptyRow).limits ⟨0, 0⟩ wrapText inEmptyRow =
        .ok (.plain (.array [.array [.object []]])) ∧
      (Outcome.plain (.array [.array [.object []]])).toJson.nesting ≤
        4 * (flatSetting inEmptyRow).limits.maxDepth + inEmptyRow.nesting := by
  have hs : Screen.issues 10000 wrapText = [] := by decide +kernel
  have hroots : inEmptyRow.isolate? = some inEmptyRow.roots := rfl
  have he : evaluate (flatSetting inEmptyRow).limits ⟨0, 0⟩ wrapText inEmptyRow =
      .ok (.plain (.array [.array [.object []]])) :=
    (evaluate_eq_runIn hs hroots parse_wrapText _ _ _).trans rfl
  have hcarried : ∀ roots e, inEmptyRow.isolate? = some roots → Expr.parse 4 wrapText = .ok e →
      CarriesUpTo { flatSetting inEmptyRow with roots := rootValues roots }
        inEmptyRow.nesting e := by
    intro roots e hi hp
    obtain rfl := Option.some.inj (hroots.symm.trans hi)
    obtain rfl := Except.ok.inj (parse_wrapText.symm.trans hp)
    exact carriesUpTo_wrapExpr
  exact ⟨hcarried, he, evaluate_nesting_le hcarried he⟩

/-- One array more around a value in each of thirty steps. -/
def growText : String :=
  "Array(30).reduce(a => [a], 0)"

def growExpr : Expr :=
  .call (.member (.call (.name "Array") [.literal (.number (Number.ofDecimal 30 0))] false) "reduce"
    false) [.arrow ["a"] (.array [.name "a"]), .literal (.number (Number.ofDecimal 0 0))] false

theorem parse_growText : Expr.parse 4 growText = .ok growExpr := by
  with_unfolding_all rfl

/-- How deep an outcome is nested, if there is one. -/
def nestingOf? : Except Failure Outcome → Option Nat
  | .ok outcome => some outcome.toJson.nesting
  | .error _ => none

theorem exists_of_nestingOf? {result : Except Failure Outcome} {n : Nat}
    (h : nestingOf? result = some n) :
    ∃ outcome, result = .ok outcome ∧ outcome.toJson.nesting = n := by
  cases result with
  | ok outcome => exact ⟨outcome, rfl, Option.some.inj h⟩
  | error failure => cases h

/-- What `reduce` carries from step to step is nested one level deeper each time, and no level of
depth is open around it. -/
theorem evaluate_grown_nesting :
    ∃ outcome, evaluate (flatSetting {}).limits ⟨0, 0⟩ growText {} = .ok outcome ∧
      4 * (flatSetting {}).limits.maxDepth + ({} : Context).nesting < outcome.toJson.nesting := by
  have hs : Screen.issues 10000 growText = [] := by decide +kernel
  have hroots : ({} : Context).isolate? = some ({} : Context).roots := rfl
  have hrun : nestingOf? (runIn (flatSetting {}) growExpr) = some 30 := by decide +kernel
  obtain ⟨outcome, ho, hn⟩ := exists_of_nestingOf? hrun
  refine ⟨outcome, (evaluate_eq_runIn hs hroots parse_growText _ _ _).trans ho, ?_⟩
  rw [hn]
  decide

end Workflow
