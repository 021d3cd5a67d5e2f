import Workflow.Evaluate
import Workflow.Proofs.Eval.PlainData
import Workflow.Proofs.Eval.Unseen
import Workflow.Proofs.Expr.Chain

/-! What an expression yields does not depend on a root of the context for which no name stands in
it. -/
namespace Workflow

open Eval

namespace ContextRoot

theorem key_mem_names (r : ContextRoot) : r.key ∈ r.names := by
  cases r
  all_goals decide

/-- `json` stands for the current item, and so does its own name. -/
theorem json_not_mem_names {r : ContextRoot} (h : "json" ∉ r.names) : "$json" ∉ r.names := by
  cases r
  case json => exact absurd h (by decide)
  all_goals decide

end ContextRoot

namespace Context

/-- The contexts differ at most in the root. -/
def SameBut (r : ContextRoot) (ctx ctx' : Context) : Prop :=
  ∀ q, q ≠ r → q.value ctx = q.value ctx'

theorem sameBut_withJson (ctx : Context) (item : Json) : SameBut .json ctx (ctx.withJson item) := by
  intro q hq
  cases q
  case json => contradiction
  all_goals rfl

theorem roots_eq_map (ctx : Context) :
    ctx.roots = ContextRoot.all.map fun q => (q.key, q.value ctx) :=
  rfl

/-- Contexts that differ in one root have the same values under other keys. -/
theorem get?_roots {r : ContextRoot} {ctx ctx' : Context} (h : SameBut r ctx ctx') {key : String}
    (hk : key ≠ r.key) : Fields.get? ctx.roots key = Fields.get? ctx'.roots key := by
  rw [roots_eq_map, roots_eq_map]
  induction ContextRoot.all with
  | nil => rfl
  | cons q rest ih =>
    unfold Fields.get? at ih ⊢
    rw [List.map_cons, List.map_cons, List.lookup_cons, List.lookup_cons, ih]
    cases hq : key == q.key with
    | false => rfl
    | true =>
      have hne : q ≠ r := fun he => hk (he ▸ eq_of_beq hq)
      exact congrArg some (h q hne)

/-- So they have when they are read back from their text. -/
theorem get?_isolate {r : ContextRoot} {ctx ctx' : Context} (h : SameBut r ctx ctx')
    {roots roots' : Fields Json} (hr : ctx.isolate? = some roots)
    (hr' : ctx'.isolate? = some roots') {key : String} (hk : key ≠ r.key) :
    Fields.get? roots key = Fields.get? roots' key := by
  have hs : (Fields.get? roots key).map some = (Fields.get? roots' key).map some := by
    rw [← Json.get?_rereadEntries? hr key, ← Json.get?_rereadEntries? hr' key, get?_roots h hk]
  exact (Option.map_inj_right fun _ _ => Option.some.inj).1 hs

end Context

/-- The value of a root under its key. -/
def rootValue? (roots : Fields Json) (key : String) : Option Value :=
  (Fields.get? roots key).map (Value.ofJson { origin := .root key })

theorem named?_map_roots (roots : Fields Json) (name : String) :
    named? (roots.map fun (name, json) => (name, Value.ofJson { origin := .root name } json)) name =
      rootValue? roots name := by
  unfold rootValue? Fields.get? named?
  induction roots with
  | nil => rfl
  | cons e rest ih =>
    obtain ⟨key, j⟩ := e
    rw [List.map_cons, List.lookup_cons, List.lookup_cons, ih]
    cases hk : name == key with
    | false => rfl
    | true =>
      obtain rfl := eq_of_beq hk
      rfl

/-- A name has the value of a root: that of its own, or, if it is `json`, of the current item. -/
theorem named?_rootValues (roots : Fields Json) (name : String) :
    named? (rootValues roots) name =
      if name = "json" then (rootValue? roots "$json").or (rootValue? roots name)
      else rootValue? roots name := by
  have hnot (v : Value) (rest : List (String × Value)) (hn : name ≠ "json") :
      named? (("json", v) :: rest) name = named? rest name := by
    unfold named?
    rw [List.lookup_cons, beq_false_of_ne hn]
  unfold rootValues
  dsimp only
  split
  · rename_i j hj
    split
    · rename_i hn
      subst hn
      unfold rootValue?
      rw [hj]
      rfl
    · rename_i hn
      rw [hnot _ _ hn, named?_map_roots]
  · rename_i hj
    rw [named?_map_roots]
    split
    · unfold rootValue?
      rw [hj]
      rfl
    · rfl

/-- The value of a name is that of a root. -/
theorem exists_of_named?_rootValues {roots : Fields Json} {name : String} {v : Value}
    (hv : named? (rootValues roots) name = some v) : ∃ key j,
      Fields.get? roots key = some j ∧ Value.ofJson { origin := .root key } j = v := by
  have hroot {key : String} (hk : rootValue? roots key = some v) : ∃ key j,
      Fields.get? roots key = some j ∧ Value.ofJson { origin := .root key } j = v :=
    ⟨key, Option.map_eq_some_iff.1 hk⟩
  rw [named?_rootValues] at hv
  split at hv
  · rcases Option.or_eq_some_iff.1 hv with hv | ⟨-, hv⟩
    · exact hroot hv
    · exact hroot hv
  · exact hroot hv

namespace Context

theorem named?_isolate {r : ContextRoot} {ctx ctx' : Context} (h : SameBut r ctx ctx')
    {roots roots' : Fields Json} (hr : ctx.isolate? = some roots)
    (hr' : ctx'.isolate? = some roots') {name : String} (hn : name ∉ r.names) :
    named? (rootValues roots) name = named? (rootValues roots') name := by
  have hv {key : String} (hk : key ∉ r.names) : rootValue? roots key = rootValue? roots' key := by
    have hne : key ≠ r.key := fun he => hk (he ▸ r.key_mem_names)
    unfold rootValue?
    rw [get?_isolate h hr hr' hne]
  rw [named?_rootValues, named?_rootValues, hv hn]
  split
  · rename_i he
    subst he
    rw [hv (ContextRoot.json_not_mem_names hn)]
  · rfl

theorem blind_rootValues (r : ContextRoot) (roots : Fields Json) {name : String} {v : Value}
    (hv : named? (rootValues roots) name = some v) : v.Blind r := by
  obtain ⟨key, j, -, rfl⟩ := exists_of_named?_rootValues hv
  exact blind_ofJson _ j

end Context

/-- Contexts that differ in nothing but a root, and that can be read back from their texts, make no
difference to a text in which no name stands for the root when it is parsed. -/
theorem evaluate_eq_of_unnamed {r : ContextRoot} {ctx ctx' : Context}
    (hctx : Context.SameBut r ctx ctx') (hi : ctx.isolate?.isSome)
    (hi' : ctx'.isolate?.isSome) (limits : Limits) (now : Time.Timestamp) (source : String)
    (elapsed : Nat → Nat) (zones : Time.ZoneDatabase)
    (hn : ∀ e, Expr.parse limits.maxDepth source = .ok e → r.Unnamed e.names) :
    evaluate limits now source ctx elapsed zones =
      evaluate limits now source ctx' elapsed zones := by
  obtain ⟨roots, hr⟩ := Option.isSome_iff_exists.1 hi
  obtain ⟨roots', hr'⟩ := Option.isSome_iff_exists.1 hi'
  unfold evaluate
  rw [hr, hr']
  cases Screen.issues limits.maxExpressionLength source with
  | cons issue issues => rfl
  | nil =>
    dsimp only
    cases hp : Expr.parse limits.maxDepth source with
    | error fault => rfl
    | ok e =>
      have hsame : SameBut r { limits, now, roots := rootValues roots, elapsed, zones }
          { limits, now, roots := rootValues roots', elapsed, zones } :=
        { limits := rfl
          now := rfl
          elapsed := rfl
          zones := rfl
          roots := fun name => Context.named?_isolate hctx hr hr'
          blind := fun name v => Context.blind_rootValues r roots }
      have hrun := (hsame.run (hn e hp) {}).1
      dsimp only
      unfold runIn
      simp only [ReaderT.run, EStateM.run]
      rw [hrun]

/-- `$vars.region` -/
def region : PlainReference where
  root := .vars
  hops := [.name "region".toList (by decide)]
  start := nofun

/-- A context with a variable under `region`. -/
def inRegion : Context where
  vars := [("region", .string "north")]

theorem evaluate_region_eq :
    Context.SameBut .json inRegion (inRegion.withJson (.string "text")) ∧
      inRegion.isolate?.isSome ∧ (inRegion.withJson (.string "text")).isolate?.isSome ∧
      (∀ e, Expr.parse 64 (String.ofList region.text) = .ok e →
        ContextRoot.Unnamed .json e.names) ∧
      evaluate {} ⟨0, 0⟩ (String.ofList region.text) inRegion =
        evaluate {} ⟨0, 0⟩ (String.ofList region.text) (inRegion.withJson (.string "text")) := by
  have hctx : Context.SameBut .json inRegion (inRegion.withJson (.string "text")) :=
    Context.sameBut_withJson _ _
  have hn : ∀ e, Expr.parse 64 (String.ofList region.text) = .ok e →
      ContextRoot.Unnamed .json e.names := by
    intro e he
    rw [show 64 = 62 + 2 from rfl, Parser.parse_plain] at he
    obtain rfl := Except.ok.inj he
    unfold ContextRoot.Unnamed
    decide
  exact ⟨hctx, rfl, rfl, hn, evaluate_eq_of_unnamed hctx rfl rfl {} ⟨0, 0⟩ _ _ .known hn⟩

end Workflow
