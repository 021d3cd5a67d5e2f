import Workflow.Proofs.Eval.Brief
import Workflow.Proofs.Eval.Affords
import Workflow.Proofs.Evaluate
import Workflow.Proofs.Json.Doubles
import Workflow.Proofs.Reference.Evaluated

/-! What becomes of the current item when an expression hands it back, as it is or as a copy that
was written as text and read again: only its numbers are rewritten. -/
namespace Workflow

open Eval Json

/-- The text of a value, on lines of their own if there is something to indent them with. -/
def Json.textWith (indent : String) (v : Json) : String :=
  if indent = "" then v.compact else v.pretty indent

/-- `JSON.parse(JSON.stringify(..))` -/
def copyExpr (args : List Expr) : Expr :=
  .call (.member (.name "JSON") "parse" false)
    [.call (.member (.name "JSON") "stringify" false) args false] false

namespace Eval

variable {s : Setting} {fuel : Nat} {mark : Eval.Mark} {v : Json}

theorem brief_stringify {call : Caller} {ws : List Value}
    (hv : Value.arg ws 0 = .ofJson mark v)
    (hfits : (v.throughDoubles.textWith (indentOf (Value.arg ws 2))).utf8ByteSize ≤
      s.limits.maxStringLength) :
    Brief s 0 2 (v.throughDoubles.textWith (indentOf (Value.arg ws 2))).utf8ByteSize
      (Native.jsonStringify.apply call ws)
      (· = .string (v.throughDoubles.textWith (indentOf (Value.arg ws 2)))) := by
  have hstringify : Native.jsonStringify.apply call ws =
      newString (v.throughDoubles.textWith (indentOf (Value.arg ws 2))) := by
    show stringify ws = _
    unfold stringify
    rw [hv, Value.toJson?_ofJson]
    rfl
  rw [hstringify]
  exact .new_string hfits

theorem brief_parse {call : Caller} {text : String} {j : Json} (hj : Json.parse? text = some j) :
    Brief s 0 3 0 (Native.jsonParse.apply call [.string text])
      fun w => ∃ mark, w = .ofJson mark j := by
  have hparse : Native.jsonParse.apply call [.string text] =
      freshMark >>= fun mark => pure (.ofJson mark j) := by
    show parseJson (Value.string text).display = _
    unfold parseJson
    rw [display_string, hj]
  rw [hparse]
  exact Brief.freshMark.bind_pure fun mark _ => ⟨mark, rfl⟩

/-- The copy of plain data, if there is room for its text and the text is read as the data. -/
theorem brief_copy {args : List Expr} {ws : List Value}
    (hjson : lookup? s [] "JSON" = some (.space .json))
    (hargs : List.Forall₂ (Immediate s (callValue (fuel + 1)) []) args ws)
    (hv : Value.arg ws 0 = .ofJson mark v)
    (hfits : (v.throughDoubles.textWith (indentOf (Value.arg ws 2))).utf8ByteSize ≤
      s.limits.maxStringLength)
    (hparse : Json.parse? (v.throughDoubles.textWith (indentOf (Value.arg ws 2))) =
      some v.throughDoubles) :
    Brief s (args.length + 7) 3 (v.throughDoubles.textWith (indentOf (Value.arg ws 2))).utf8ByteSize
      (step (callValue (fuel + 1)) [] (copyExpr args))
      fun link => ∃ w, link = some w ∧ ∃ mark, w = .ofJson mark v.throughDoubles := by
  have hitems : Brief s args.length 2 0 (stepItems (callValue (fuel + 1)) [] [] args) (· = ws) :=
    (brief_items hargs []).mono (Nat.le_refl _) (by decide) (Nat.le_refl _)
  let text := v.throughDoubles.textWith (indentOf (Value.arg ws 2))
  have htext : Brief s (args.length + 0 + 3) 2 (0 + text.utf8ByteSize)
      (step (callValue (fuel + 1)) [] (.call (.member (.name "JSON") "stringify" false) args false))
      fun link => ∃ w, link = some w ∧ w = .string text :=
    brief_call hjson rfl hitems fun _ hws => by
      subst hws
      exact brief_stringify hv hfits
  have harg : Brief s (args.length + 4) 3 text.utf8ByteSize
      (stepItems (callValue (fuel + 1)) [] []
        [.call (.member (.name "JSON") "stringify" false) args false])
      (· = [.string text]) := by
    rw [Nat.zero_add] at htext
    exact htext.as_value.bind_pure fun _ hw => by rw [hw]; rfl
  have hread : ∀ ws', ws' = [.string text] →
      Brief s 0 3 0 (Native.jsonParse.apply (callValue fuel) ws')
        fun w => ∃ mark, w = .ofJson mark v.throughDoubles := by
    rintro _ rfl
    exact brief_parse hparse
  have hmember : readMember (.space .json) "parse" = pure (.func (.native .jsonParse)) := rfl
  exact brief_call hjson hmember harg hread

/-- What ends before the clock is looked at, with plain data, yields the data. -/
theorem runIn_of_brief {e : Expr} {ticks levels units : Nat}
    (h : ∀ fuel, Brief s ticks levels units (step (callValue (fuel + 1)) [] e)
      fun link => ∃ w, link = some w ∧ ∃ mark, w = .ofJson mark v)
    (hticks : ticks + 1 < clockInterval) (hlevels : levels + 1 ≤ s.limits.nesting)
    (hunits : units ≤ s.limits.maxTotalElements) : runIn s e = .ok (.plain v.throughDoubles) := by
  obtain ⟨fuel, hfuel⟩ : ∃ fuel, callFuel = fuel + 1 := ⟨0xfff_ffff_ffff_ffff, rfl⟩
  have hrun : Brief s (ticks + 1) (levels + 1) units (Eval.run e)
      fun w => ∃ mark, w = .ofJson mark v := by
    unfold Eval.run runWith
    rw [hfuel]
    exact (h fuel).as_value
  obtain ⟨_, t, he, ⟨mark, rfl⟩, -⟩ := hrun {} (by dsimp only; omega) (by dsimp only; omega)
    (by dsimp only; omega)
  exact runIn_of_run he (Outcome.ofValue?_ofJson mark v)

end Eval

/-- The roots of a context that holds the item. -/
def rootsWith (execution index item node vars workflow : Json) : Fields Json :=
  [("$execution", execution), ("$itemIndex", index), ("$json", item), ("$node", node),
    ("$vars", vars), ("$workflow", workflow)]

theorem exists_isolate?_withJson {ctx : Context} {v : Json}
    (hctx : (ctx.withJson .null).isolate?.isSome = true)
    (hv : v.reread? (maxNesting - 1) = some v) :
    ∃ execution index node vars workflow, (ctx.withJson v).isolate? =
      some (rootsWith execution index v node vars workflow) := by
  let room := maxNesting - 1
  obtain ⟨roots, h⟩ := Option.isSome_iff_exists.1 hctx
  obtain ⟨execution, (he : ctx.execution.reread? room = _), h⟩ := Option.bind_eq_some_iff.1 h
  obtain ⟨_, h, -⟩ := Option.bind_eq_some_iff.1 h
  -- the index of the item and the missing item are read back as they are
  obtain ⟨_, h, -⟩ := Option.bind_eq_some_iff.1 h
  obtain ⟨_, h, -⟩ := Option.bind_eq_some_iff.1 h
  obtain ⟨node, (hn : ctx.node.toJson.reread? room = _), h⟩ := Option.bind_eq_some_iff.1 h
  obtain ⟨_, h, -⟩ := Option.bind_eq_some_iff.1 h
  obtain ⟨vars, (hvars : (Json.object ctx.vars).reread? room = _), h⟩ :=
    Option.bind_eq_some_iff.1 h
  obtain ⟨_, h, -⟩ := Option.bind_eq_some_iff.1 h
  obtain ⟨workflow, (hw : ctx.workflow.reread? room = _), -⟩ := Option.bind_eq_some_iff.1 h
  have hi : (Json.ofNat ctx.itemIndex).reread? room = some (.ofNat ctx.itemIndex) := rfl
  refine ⟨execution, .ofNat ctx.itemIndex, node, vars, workflow, ?_⟩
  unfold Context.isolate? Context.roots Context.withJson rootsWith
  simp only [rereadEntries?, room, he, hi, hv, hn, hvars, hw]
  rfl

/-- There is room for a text of the size. -/
def Limits.Hold (l : Limits) (text : String) : Prop :=
  text.utf8ByteSize ≤ l.maxStringLength ∧ text.utf8ByteSize ≤ l.maxTotalElements

theorem gap_indentOf_number (x : Float) : Gap (indentOf (.number x)).toList := by
  unfold indentOf
  dsimp only
  split
  · rw [String.toList_ofList]
    intro c hc
    rw [List.eq_of_mem_replicate hc]
    rfl
  · exact gap_nil

theorem parse?_textWith {v : Json} (ho : v.Ordered) (hroom : v.nesting ≤ maxNesting)
    (hn : v.throughDoubles.ReadsBack) {indent : String} (hi : Gap indent.toList) :
    Json.parse? (v.throughDoubles.textWith indent) = some v.throughDoubles := by
  obtain ⟨hcompact, hpretty⟩ := parse?_texts ho hroom hn
  unfold textWith
  split
  · exact hcompact
  · exact hpretty indent hi

/-- What is evaluated to a copy of the item yields the item, its numbers as doubles. -/
theorem runIn_copyExpr {s : Setting} {mark : Eval.Mark} {v : Json} {args : List Expr}
    {ws : List Value} {indent : String} (hjson : lookup? s [] "JSON" = some (.space .json))
    (hargs : ∀ call, List.Forall₂ (Immediate s call []) args ws)
    (hv : Value.arg ws 0 = .ofJson mark v) (hindent : indentOf (Value.arg ws 2) = indent)
    (hcount : args.length + 8 < clockInterval) (hlevels : 4 ≤ s.limits.nesting)
    (hfits : s.limits.Hold (v.throughDoubles.textWith indent))
    (hparse : Json.parse? (v.throughDoubles.textWith indent) = some v.throughDoubles) :
    runIn s (copyExpr args) = .ok (.plain v.throughDoubles) := by
  subst hindent
  have hcopy := fun fuel => brief_copy hjson (hargs (callValue (fuel + 1))) hv hfits.1 hparse
  have hrun := runIn_of_brief hcopy hcount hlevels hfits.2
  rwa [throughDoubles_idem] at hrun

theorem parse_json {limit : Nat} (h : 1 ≤ limit) :
    Expr.parse limit "$json" = .ok (.name "$json") := by
  have hone : Expr.parse 1 "$json" = .ok (.name "$json") := by with_unfolding_all rfl
  exact Parser.parse_of_le h hone

/-- `JSON.parse(JSON.stringify($json))` -/
def copyText : String :=
  "JSON.parse(JSON.stringify($json))"

theorem parse_copyText {limit : Nat} (h : 3 ≤ limit) :
    Expr.parse limit copyText = .ok (copyExpr [.name "$json"]) := by
  have hthree : Expr.parse 3 copyText = .ok (copyExpr [.name "$json"]) := by with_unfolding_all rfl
  exact Parser.parse_of_le h hthree

/-- An item that is read back from its text passes through an evaluation: the text `$json` yields it
with its numbers as doubles, and so does every copy by way of JSON text, with or without white
space. That rewriting keeps safe whole numbers and all that is no number, and changes nothing when
it is done again. -/
theorem item_passes_through {v : Json} (hordered : v.Ordered) (hnesting : v.nesting < maxNesting)
    (hread : v.ReadsBack) (hnorm : v.throughDoubles.ReadsBack) {ctx : Context}
    (hctx : (ctx.withJson .null).isolate?.isSome = true) {limits : Limits}
    (hlevels : 4 ≤ limits.nesting) (now : Time.Timestamp) (elapsed : Nat → Nat)
    (zones : Time.ZoneDatabase) :
    IsNorm throughDoubles ∧
    (5 ≤ limits.maxExpressionLength → 1 ≤ limits.maxDepth →
      evaluate limits now "$json" (ctx.withJson v) elapsed zones = .ok (.plain v.throughDoubles)) ∧
    (33 ≤ limits.maxExpressionLength → 3 ≤ limits.maxDepth →
      limits.Hold v.throughDoubles.compact →
      evaluate limits now "JSON.parse(JSON.stringify($json))" (ctx.withJson v) elapsed zones =
        .ok (.plain v.throughDoubles)) ∧
    ∀ source x, Screen.issues limits.maxExpressionLength source = [] →
      Expr.parse limits.maxDepth source =
        .ok (copyExpr [.name "$json", .literal .null, .literal (.number x)]) →
      limits.Hold (v.throughDoubles.textWith (indentOf (.number x))) →
      evaluate limits now source (ctx.withJson v) elapsed zones = .ok (.plain v.throughDoubles) := by
  have hreread := reread?_of_numerals (Nat.le_sub_one_of_lt hnesting) hread
  obtain ⟨execution, index, node, vars, workflow, hi⟩ := exists_isolate?_withJson hctx hreread
  let s : Setting :=
    { limits, now, roots := rootValues (rootsWith execution index v node vars workflow), elapsed,
      zones }
  have hitem : lookup? s [] "$json" = some (.ofJson { origin := .root "$json" } v) := rfl
  have hjson : lookup? s [] "JSON" = some (.space .json) := rfl
  have hroom := Nat.le_of_lt hnesting
  refine ⟨isNorm_throughDoubles, fun hlength hdepth => ?_, fun hlength hdepth hfits => ?_,
    fun source x hs hp hfits => ?_⟩
  · have hs : Screen.issues limits.maxExpressionLength "$json" = [] :=
      (issues_of_length_le hlength (Nat.le_refl 5)).trans (by decide +kernel)
    rw [evaluate_eq_runIn hs hi (parse_json hdepth)]
    have hbrief : ∀ fuel, Brief s 0 0 0 (step (callValue (fuel + 1)) [] (.name "$json"))
        fun link => ∃ w, link = some w ∧ ∃ mark, w = .ofJson mark v := by
      refine fun fuel => (immediate_name hitem).imp ?_
      rintro _ ⟨_, rfl, rfl⟩
      exact ⟨_, rfl, _, rfl⟩
    exact runIn_of_brief hbrief (by decide) (Nat.le_trans (by decide) hlevels) (Nat.zero_le _)
  · have hs : Screen.issues limits.maxExpressionLength copyText = [] :=
      (issues_of_length_le hlength (Nat.le_refl 33)).trans (by decide +kernel)
    have hargs : ∀ call, List.Forall₂ (Immediate s call []) [.name "$json"]
        [.ofJson { origin := .root "$json" } v] :=
      fun call => .cons (immediate_name hitem) .nil
    show evaluate limits now copyText (ctx.withJson v) elapsed zones = _
    rw [evaluate_eq_runIn hs hi (parse_copyText hdepth)]
    exact runIn_copyExpr hjson hargs rfl rfl (by decide) hlevels hfits
      (parse?_textWith hordered hroom hnorm gap_nil)
  · have hargs : ∀ call, List.Forall₂ (Immediate s call [])
        [.name "$json", .literal .null, .literal (.number x)]
        [.ofJson { origin := .root "$json" } v, .null, .number x] :=
      fun call => .cons (immediate_name hitem)
        (.cons (immediate_literal .null) (.cons (immediate_literal (.number x)) .nil))
    have hcount : 3 + 8 < clockInterval := by decide
    rw [evaluate_eq_runIn hs hi hp]
    exact runIn_copyExpr hjson hargs rfl rfl hcount hlevels hfits
      (parse?_textWith hordered hroom hnorm (gap_indentOf_number x))

/-- An entry with numbers, one of which no double is, under a key that is escaped. -/
def numberRow : Json :=
  .object [("a\n", .array [.number (.double 0.1), .number (.whole 9007199254740993), .null]),
    ("b", .ofInt (-7))]

/-- The same with what doubles make of the numbers. -/
def roundedRow : Json :=
  .object [("a\n", .array [.number (.double 0.1), .number (.double 9007199254740992.0), .null]),
    ("b", .ofInt (-7))]

set_option maxRecDepth 10000 in
theorem number_row_passes_through :
    numberRow.Ordered ∧ numberRow.nesting < maxNesting ∧ numberRow.ReadsBack ∧
      numberRow.throughDoubles = roundedRow ∧ roundedRow.ReadsBack ∧
      (Context.withJson {} .null).isolate?.isSome = true ∧ 4 ≤ ({} : Limits).nesting ∧
      evaluate {} ⟨0, 0⟩ "$json" (Context.withJson {} numberRow) = .ok (.plain roundedRow) ∧
      evaluate {} ⟨0, 0⟩ "JSON.parse(JSON.stringify($json))" (Context.withJson {} numberRow) =
        .ok (.plain roundedRow) ∧
      evaluate {} ⟨0, 0⟩ "JSON.parse(JSON.stringify($json, null, 2))"
        (Context.withJson {} numberRow) = .ok (.plain roundedRow) := by
  have hordered : numberRow.Ordered :=
    ⟨List.pairwise_pair.2 (by decide), ⟨trivial, trivial, trivial, trivial⟩, trivial, trivial⟩
  have hnesting : numberRow.nesting < maxNesting := by decide
  have htenth : (Numeral.double 0.1).reread? = some (.double 0.1) := by with_unfolding_all rfl
  have hlarge : (Numeral.double 9007199254740992.0).reread? =
      some (.double 9007199254740992.0) := by
    with_unfolding_all rfl
  have hread : numberRow.ReadsBack := by
    intro n hn
    rcases List.mem_cons.1 hn with rfl | hn
    · exact htenth
    · rcases List.mem_cons.1 hn with rfl | hn
      · rfl
      · obtain rfl := List.mem_singleton.1 hn
        rfl
  have hnorm : numberRow.throughDoubles = roundedRow := by with_unfolding_all rfl
  have hread' : roundedRow.ReadsBack := by
    intro n hn
    rcases List.mem_cons.1 hn with rfl | hn
    · exact htenth
    · rcases List.mem_cons.1 hn with rfl | hn
      · exact hlarge
      · obtain rfl := List.mem_singleton.1 hn
        rfl
  have hctx : (Context.withJson {} .null).isolate?.isSome = true := rfl
  have hlevels : 4 ≤ ({} : Limits).nesting := by decide
  have hpasses := item_passes_through hordered hnesting hread (hnorm.symm ▸ hread') hctx hlevels
    ⟨0, 0⟩ (fun _ => 0) .known
  rw [hnorm] at hpasses
  obtain ⟨-, hitem, hcopy, hindented⟩ := hpasses
  have hparse : Expr.parse 64 "JSON.parse(JSON.stringify($json, null, 2))" = .ok (copyExpr
      [.name "$json", .literal .null, .literal (.number (Number.ofDecimal 2 0))]) := by
    with_unfolding_all rfl
  exact ⟨hordered, hnesting, hread, hnorm, hread', hctx, hlevels,
    hitem (by decide) (by decide),
    hcopy (by decide) (by decide) ⟨by decide +kernel, by decide +kernel⟩,
    hindented _ _ (by decide +kernel) hparse ⟨by decide +kernel, by decide +kernel⟩⟩

end Workflow
