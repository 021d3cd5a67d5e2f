import Workflow.Proofs.Eval.Chain

/-! Plain references as expressions: where reading one as a reference gives a value, evaluating it
gives that value as well, its numbers as doubles. -/
namespace Workflow

open Eval

namespace Eval

variable {s : Setting} {call : Caller} {env : Env}

theorem gives_name {name : String} {v : Value} (h : lookup? s env name = some v) :
    Gives s 0 (step call env (.name name)) (some v) := by
  have hr : Gives s 0 (readName env name) v := by
    intro t
    unfold readName
    rw [run_bind, run_read]
    dsimp only
    rw [h]
    exact Or.inl ⟨t, rfl, rfl⟩
  exact hr.bind (.pure _)

/-- The expression of a root has the value of the root. -/
theorem gives_root {item j : Json} {ctx : Option Context} (root : Root)
    (hs : s.roots = rootValues ((ctx.getD {}).withJson item).roots)
    (hj : root.value? item ctx = some j) :
    ∃ mark, Gives s 1 (step call [] root.expr) (some (.ofJson mark j)) := by
  obtain ⟨limits, now, roots, zones, elapsed⟩ := s
  obtain rfl : roots = _ := hs
  cases root with
  | json =>
    obtain rfl := Option.some.inj hj
    exact ⟨_, (gives_name rfl).mono (Nat.zero_le 1)⟩
  | vars | workflow | execution =>
    obtain ⟨c, rfl, rfl⟩ := Option.map_eq_some_iff.1 hj
    exact ⟨_, (gives_name rfl).mono (Nat.zero_le 1)⟩
  | node name hn =>
    obtain ⟨c, rfl, hc⟩ := Option.bind_eq_some_iff.1 hj
    let mark : Eval.Mark := { origin := .root "$node" }
    obtain ⟨k, hk⟩ := Value.get?_ofJsonEntries mark 0 hc
    have hm : readMember (Value.ofJson mark c.node.toJson) (String.ofList name) =
        pure (Value.ofJson (mark.part k) j) :=
      congrArg (fun v : Option Value => (pure (v.getD .undefined) : EvalM Value)) hk
    exact ⟨mark.part k, gives_index (gives_name rfl) (String.empty_append ..) hm⟩

end Eval

theorem Outcome.ofValue?_ofJson (mark : Eval.Mark) (j : Json) :
    Outcome.ofValue? (Value.ofJson mark j) = some (.plain j.throughDoubles) := by
  have hj : (Value.ofJson mark j).toJson?.map Outcome.plain = some (.plain j.throughDoubles) := by
    rw [Value.toJson?_ofJson]
    rfl
  cases j with
  | _ => exact hj

theorem runIn_of_run {s : Setting} {e : Expr} {v : Value} {t : Meter} {outcome : Outcome}
    (hr : Eval.run e s {} = .ok v t) (ho : Outcome.ofValue? v = some outcome) :
    runIn s e = .ok outcome := by
  unfold runIn
  simp only [ReaderT.run, EStateM.run]
  rw [hr]
  dsimp only
  rw [ho]

/-- What evaluates to plain data yields it, its numbers as doubles, unless a limit ends the run. -/
theorem runIn_of_gives {s : Setting} {levels : Nat} {e : Expr} {mark : Eval.Mark} {j : Json}
    (h : Gives s levels (Eval.run e) (.ofJson mark j)) :
    runIn s e = .ok (.plain j.throughDoubles) ∨
      ∃ cause, runIn s e = .error (.fault cause) ∧ cause.IsLimit ∧
        ¬(Untimed s ∧ levels ≤ s.limits.nesting) := by
  rcases h {} with ⟨t, he, -⟩ | ⟨cause, t, he, hc, hno⟩
  · exact Or.inl (runIn_of_run he (Outcome.ofValue?_ofJson mark j))
  · refine Or.inr ⟨cause, ?_, hc, fun ⟨hs, hl⟩ => hno ⟨hs, by dsimp only; omega⟩⟩
    unfold runIn
    simp only [ReaderT.run, EStateM.run]
    rw [he]

namespace PlainReference

/-- The limits leave room for the brackets of the reference and for one level of evaluation for each
hop, with two for the root and the value. No look at the clock finds the time over. -/
structure HasRoom (p : PlainReference) (limits : Limits) (elapsed : Nat → Nat) : Prop where
  brackets : 2 ≤ limits.maxDepth
  hops : p.hops.length + 2 ≤ limits.nesting
  clock : ∀ ticks, elapsed ticks < limits.timeoutMs

/-- A plain reference is read as a chain, unless its brackets nest too deep. -/
theorem parse_or_exceeds (p : PlainReference) (limit : Nat) :
    Expr.parse limit (String.ofList p.text) = .ok (p.hops.foldl Hop.link p.root.expr) ∨
      limit < 2 ∧ ∃ reached, Expr.parse limit (String.ofList p.text) =
        .error (.tooDeep reached) := by
  rcases Nat.lt_or_ge limit 2 with hlt | hge
  · rcases Parser.shallower_parse (Nat.le_add_right limit 2) (String.ofList p.text)
      with he | ⟨reached, he⟩
    · exact Or.inl (he.trans (Parser.parse_plain p limit))
    · exact Or.inr ⟨hlt, reached, he⟩
  · exact Or.inl (Parser.parse_of_le hge (Parser.parse_plain p 0))

/-- If a plain reference has a value, its text is not refused, the context survives being read back
from its text, no key begins like an index, and indices are displayed as they are written, then the
text evaluates to that value, its numbers as doubles, where the limits leave room for it. Elsewhere
it does so too, or ends with the fault of a limit. -/
theorem evaluate_agrees_with_reference (p : PlainReference) {item v : Json} {ctx : Option Context}
    (limits : Limits) (now : Time.Timestamp) (elapsed : Nat → Nat) (zones : Time.ZoneDatabase)
    (hv : ((Reference.parse? p.text).bind fun r => r.resolve? item ctx) = some v)
    (hs : Screen.issues limits.maxExpressionLength (String.ofList p.text) = [])
    (hc : ((ctx.getD {}).withJson item).isolate? = some ((ctx.getD {}).withJson item).roots)
    (hk : ∀ s h, .key s h ∈ p.hops → IsNoIndex s) (hb : ∀ n, .index n ∈ p.hops → ReadsBack n) :
    (p.HasRoom limits elapsed →
      evaluate limits now (String.ofList p.text) ((ctx.getD {}).withJson item) elapsed zones =
        .ok (.plain v.throughDoubles)) ∧
    (evaluate limits now (String.ofList p.text) ((ctx.getD {}).withJson item) elapsed zones =
        .ok (.plain v.throughDoubles) ∨
      ∃ cause, evaluate limits now (String.ofList p.text) ((ctx.getD {}).withJson item) elapsed
        zones = .error (.fault cause) ∧ cause.IsLimit) := by
  obtain ⟨j, hj, hl⟩ := p.of_resolve? hv
  unfold evaluate
  rw [hs, hc]
  dsimp only
  rcases p.parse_or_exceeds limits.maxDepth with he | ⟨hdepth, reached, he⟩
  · rw [he]
    let s : Setting :=
      { limits, now, roots := rootValues ((ctx.getD {}).withJson item).roots, elapsed, zones }
    obtain ⟨mark, hr⟩ :
        ∃ mark, Gives s 1 (step (callValue callFuel) [] p.root.expr) (some (.ofJson mark j)) :=
      gives_root p.root rfl hj
    obtain ⟨mark', hh⟩ := gives_links hk hb hr hl
    rcases runIn_of_gives hh.as_value with hok | ⟨cause, hf, hc, hno⟩
    · exact ⟨fun _ => hok, Or.inl hok⟩
    · refine ⟨fun hroom => absurd ⟨hroom.clock, ?_⟩ hno, Or.inr ⟨cause, hf, hc⟩⟩
      have hhops := hroom.hops
      show 1 + p.hops.length + 1 ≤ limits.nesting
      omega
  · rw [he]
    exact ⟨fun hroom => absurd hroom.brackets (Nat.not_le.2 hdepth),
      Or.inr ⟨.exceeded (.parsing reached), rfl, nofun⟩⟩

/-- `$node["Fetch"].rows[1]["content-type"].length` -/
def contentTypeLength : PlainReference where
  root := .node "Fetch".toList (by decide)
  hops := [.name "rows".toList (by decide), .index 1,
    .key "content-type".toList (by decide),
    .name "length".toList (by decide)]
  start := nofun

/-- A context in which the second row that `Fetch` gave has a text under `content-type`. -/
def fetchedRows : Context where
  node := ⟨[("Fetch", .object [("rows", .array [.null, .object [("content-type", .string "text")]])])]⟩

theorem resolve?_contentTypeLength :
    ((Reference.parse? contentTypeLength.text).bind fun r => r.resolve? .null (some fetchedRows)) =
      some (.ofNat 4) := by
  show Path.lookup _ contentTypeLength.path = _
  unfold Path.lookup path
  rw [Path.segments_texts]
  rfl

theorem hasRoom_contentTypeLength : contentTypeLength.HasRoom {} fun _ => 0 where
  brackets := by decide
  hops := by decide
  clock := fun _ => by decide

theorem evaluate_contentTypeLength :
    ((Reference.parse? contentTypeLength.text).bind fun r => r.resolve? .null (some fetchedRows)) =
        some (.ofNat 4) ∧
      Screen.issues 10000 (String.ofList contentTypeLength.text) = [] ∧
      (fetchedRows.withJson .null).isolate? = some (fetchedRows.withJson .null).roots ∧
      (∀ s h, .key s h ∈ contentTypeLength.hops → IsNoIndex s) ∧
      (∀ n, .index n ∈ contentTypeLength.hops → ReadsBack n) ∧
      contentTypeLength.HasRoom {} (fun _ => 0) ∧
      evaluate {} ⟨0, 0⟩ (String.ofList contentTypeLength.text) (fetchedRows.withJson .null) =
        .ok (.plain (Json.ofNat 4).throughDoubles) := by
  have hs : Screen.issues 10000 (String.ofList contentTypeLength.text) = [] := by decide +kernel
  have hc : (fetchedRows.withJson .null).isolate? = some (fetchedRows.withJson .null).roots := by
    rfl
  have hk : ∀ s h, .key s h ∈ contentTypeLength.hops → IsNoIndex s := by
    intro s h hs
    obtain rfl : s = "content-type".toList := by simpa [contentTypeLength] using hs
    decide
  have hb : ∀ n, .index n ∈ contentTypeLength.hops → ReadsBack n := by
    intro n hn
    obtain rfl : n = 1 := by simpa [contentTypeLength] using hn
    show Number.display (Number.ofDecimal 1 0) = "1"
    decide +kernel
  obtain ⟨hok, -⟩ := contentTypeLength.evaluate_agrees_with_reference {} ⟨0, 0⟩ (fun _ => 0) .known
    resolve?_contentTypeLength hs hc hk hb
  exact ⟨resolve?_contentTypeLength, hs, hc, hk, hb, hasRoom_contentTypeLength,
    hok hasRoom_contentTypeLength⟩

end PlainReference

end Workflow
