import Workflow.Proofs.Reference.Evaluated
import Workflow.Proofs.Resolve.Substitution

/-! Placeholders that name a key of the current item in quotes. The key alone decides whether such a
placeholder is looked up or evaluated, and what is evaluated is rewritten: its numbers are read
back as doubles. -/
namespace Workflow

open Text Template

/-- The reference `$json["key"]`. -/
def quotedKey (key : String) : String :=
  "$json[\x22" ++ key ++ "\x22]"

/-- The template that is nothing but such a placeholder. -/
def quotedKeyTemplate (key : String) : String :=
  "\x7b\x7b" ++ quotedKey key ++ "\x7d\x7d"

/-- The same reference as a root with one hop. -/
def PlainReference.ofKey (s : List Char) (h : IsKey s) : PlainReference where
  root := .json
  hops := [.key s h]
  start := by
    rintro - hop hh
    obtain rfl := Option.some.inj hh
    exact id

namespace Template

theorem isContent_of_braceless {s : List Char} (h : Braceless s) : IsContent s := by
  induction s with
  | nil => exact .nil
  | cons c s ih =>
    obtain ⟨⟨ho, hc⟩, hs⟩ := braceless_cons.1 h
    exact .char ho hc (ih hs)

end Template

theorem toList_quotedKeyTemplate (key : String) :
    (quotedKeyTemplate key).toList = (Piece.placeholder (quotedKey key).toList).source := by
  unfold quotedKeyTemplate
  rw [String.toList_append, String.toList_append]
  rfl

theorem Path.field?_of_key {entries : Fields Json} {v : Json} {key : String}
    (hv : Fields.get? entries key = some v) : lookupSegments (.object entries) [key] = some v := by
  rw [lookupSegments_cons fun _ _ => rfl]
  show (Fields.get? entries key).bind _ = _
  rw [hv]
  rfl

theorem toList_quotedKey {key : String} (hk : IsKey key.toList) :
    (quotedKey key).toList = (PlainReference.ofKey key.toList hk).text := by
  have hs : (quotedKey key).toList = "$json[\x22".toList ++ key.toList ++ "\x22]".toList := by
    unfold quotedKey
    rw [String.toList_append, String.toList_append]
  have ht : (PlainReference.ofKey key.toList hk).text =
      "$json".toList ++ ((Hop.key key.toList hk).text ++ []) :=
    rfl
  rw [hs, ht, Hop.text_key_append, List.append_assoc]
  rfl

theorem trim_quotedKey (key : String) : trim (quotedKey key).toList = (quotedKey key).toList := by
  have hs : (quotedKey key).toList = "$json[\x22".toList ++ key.toList ++ ['\x22', ']'] := by
    unfold quotedKey
    rw [String.toList_append, String.toList_append]
    rfl
  rw [hs]
  refine trim_eq_self (fun c hc => ?_) fun c hc => ?_
  · obtain rfl : '$' = c := Option.some.inj hc
    decide
  · rw [List.getLast?_append] at hc
    obtain rfl : ']' = c := Option.some.inj hc
    decide

section

variable {key : String} (hk : IsKey key.toList) (hb : Braceless key.toList)
include hb

theorem isContent_quotedKey : IsContent (quotedKey key).toList := by
  have hstart : Braceless "$json[\x22".toList := by decide
  have hend : Braceless "\x22]".toList := by decide
  refine isContent_of_braceless fun c hc => ?_
  unfold quotedKey at hc
  rw [String.toList_append, String.toList_append] at hc
  rcases List.mem_append.1 hc with hc | hc
  · rcases List.mem_append.1 hc with hc | hc
    · exact hstart c hc
    · exact hb c hc
  · exact hend c hc

include hk

/-- The template has the value of its only placeholder. -/
theorem Resolver.template_quotedKey (r : Resolver) :
    r.template (quotedKeyTemplate key) =
      ((r.evaluated? (quotedKey key).toList).or (r.referenced? (quotedKey key).toList)).getD
        (.string (quotedKeyTemplate key)) := by
  have ht : trim (quotedKeyTemplate key).toList =
      (Piece.placeholder (quotedKey key).toList).source := by
    rw [toList_quotedKeyTemplate]
    refine trim_eq_self (fun c hc => ?_) fun c hc => ?_
    · obtain rfl : '\x7b' = c := Option.some.inj hc
      decide
    · rw [Piece.source, List.getLast?_append] at hc
      obtain rfl : '\x7d' = c := Option.some.inj hc
      decide
  have hs := Resolver.single?_eq_some_iff.2 ⟨isContent_quotedKey hb, ht⟩
  have hne : (quotedKey key).toList.isEmpty = false := by
    rw [toList_quotedKey hk]
    rfl
  unfold Resolver.template
  rw [hs]
  dsimp only
  unfold Resolver.content?
  rw [trim_quotedKey]
  dsimp only
  rw [hne]
  rfl

end

theorem Resolver.referenced?_quotedKey {r : Resolver} {entries : Fields Json} {key : String}
    {v : Json} (hk : IsKey key.toList) (hi : r.item = .object entries)
    (hv : Fields.get? entries key = some v) : r.referenced? (quotedKey key).toList = some v := by
  have hp := PlainReference.parse?_json (p := .ofKey key.toList hk) rfl
  have hl : Path.lookup (.object entries) (PlainReference.ofKey key.toList hk).path = some v := by
    unfold Path.lookup PlainReference.path
    rw [Path.segments_texts]
    show Path.lookupSegments (.object entries) [String.ofList key.toList] = some v
    rw [String.ofList_toList]
    exact Path.field?_of_key hv
  unfold Resolver.referenced?
  rw [toList_quotedKey hk, hp]
  show (Reference.json _).resolve? r.item r.context = some v
  rw [hi]
  exact hl

theorem Context.isolate?_forItem (item : Json) :
    (Context.forItem item).isolate? =
      (item.reread? (Json.maxNesting - 1)).map fun item => (Context.forItem item).roots := by
  unfold Context.isolate? Context.roots Context.forItem
  simp only [Json.rereadEntries?]
  cases item.reread? (Json.maxNesting - 1) with
  | none => rfl
  | some item' => rfl

theorem of_evaluate_eq_ok {limits : Limits} {now : Time.Timestamp} {source : String}
    {ctx : Context} {elapsed : Nat → Nat} {zones : Time.ZoneDatabase} {outcome : Outcome}
    (h : evaluate limits now source ctx elapsed zones = .ok outcome) :
    Screen.issues limits.maxExpressionLength source = [] ∧ ∃ roots, ctx.isolate? = some roots := by
  unfold evaluate at h
  cases hs : Screen.issues limits.maxExpressionLength source with
  | cons issue issues =>
    rw [hs] at h
    contradiction
  | nil =>
    cases hr : ctx.isolate? with
    | none =>
      rw [hs, hr] at h
      contradiction
    | some roots => exact ⟨rfl, roots, rfl⟩

theorem run_quotedKey (key : String) (now : Time.Timestamp) (zones : Time.ZoneDatabase)
    (entries : Fields Json) :
    ∃ t, Eval.run (.index (.name "$json") (.literal (.string key)) false)
        { limits := {}, now, roots := rootValues (Context.forItem (.object entries)).roots,
          zones } {} =
      .ok (Eval.member (.ofJson { origin := .root "$json" } (.object entries)) key) t := by
  have hd : (Eval.Value.string key).display = key := String.empty_append ..
  refine ⟨?_, ?_⟩
  rotate_left
  · conv_rhs => rw [← hd]
    rfl

/-- The value under the key, with its numbers as doubles. -/
theorem evaluate_quotedKey {key : String} (hk : IsKey key.toList) (now : Time.Timestamp)
    (zones : Time.ZoneDatabase) (hs : Screen.issues 10000 (quotedKey key) = []) {item w : Json}
    {entries : Fields Json} (hr : item.reread? (Json.maxNesting - 1) = some (.object entries))
    (hw : Fields.get? entries key = some w) :
    evaluate {} now (quotedKey key) (.forItem item) (fun _ => 0) zones =
      .ok (.plain w.throughDoubles) := by
  have hp : Expr.parse 64 (quotedKey key) =
      .ok (.index (.name "$json") (.literal (.string key)) false) := by
    have hp := Parser.parse_plain (.ofKey key.toList hk) 62
    rw [← toList_quotedKey hk, String.ofList_toList] at hp
    rw [hp]
    show Except.ok (Expr.index _ (.literal (.string (String.ofList key.toList))) false) = _
    rw [String.ofList_toList]
    rfl
  obtain ⟨t, ht⟩ := run_quotedKey key now zones entries
  obtain ⟨k, hm⟩ := Eval.Value.get?_ofJsonEntries { origin := .root "$json" } 0 hw
  unfold evaluate
  rw [show Screen.issues ({} : Limits).maxExpressionLength (quotedKey key) = [] from hs,
    Context.isolate?_forItem, hr]
  dsimp only [Option.map_some]
  rw [hp]
  refine runIn_of_run ht ?_
  show Outcome.ofValue? ((Fields.get? _ key).getD .undefined) = _
  rw [hm, Option.getD_some, Outcome.ofValue?_ofJson]

namespace Resolver

theorem evaluated?_of_code (r : Resolver) {content : List Char}
    (h : looksLikeCode content = true) :
    r.evaluated? content =
      (r.evaluate (String.ofList content)).toOption.map Outcome.toJson := by
  unfold evaluated?
  rw [if_pos h]
  cases r.evaluate (String.ofList content) with
  | ok outcome => rfl
  | error failure => rfl

/-- What works with an item and no other context. -/
def ofItem (now : Time.Timestamp) (zones : Time.ZoneDatabase) (item : Json) : Resolver :=
  { now, zones, context := none, fallback := item }

section

variable {key : String} (now : Time.Timestamp) (zones : Time.ZoneDatabase) (entries : Fields Json)

theorem evaluated?_quotedKey (hc : looksLikeCode (quotedKey key).toList = true) :
    (ofItem now zones (.object entries)).evaluated? (quotedKey key).toList =
      (Workflow.evaluate {} now (quotedKey key) (.forItem (.object entries)) (fun _ => 0)
        zones).toOption.map Outcome.toJson := by
  rw [evaluated?_of_code _ hc, String.ofList_toList]
  rfl

/-- A placeholder that is evaluated looks like code that is not refused, and its item can be read
back from its text. -/
theorem of_evaluated?_quotedKey {x : Json}
    (h : (ofItem now zones (.object entries)).evaluated? (quotedKey key).toList = some x) :
    looksLikeCode (quotedKey key).toList = true ∧ Screen.issues 10000 (quotedKey key) = [] ∧
      ∃ item, (Json.object entries).reread? (Json.maxNesting - 1) = some item := by
  by_cases hc : looksLikeCode (quotedKey key).toList = true
  · rw [evaluated?_quotedKey now zones entries hc] at h
    cases ho : Workflow.evaluate {} now (quotedKey key) (.forItem (.object entries)) (fun _ => 0)
        zones with
    | error failure =>
      rw [ho] at h
      contradiction
    | ok outcome =>
      obtain ⟨hs, roots, hr⟩ := of_evaluate_eq_ok ho
      rw [Context.isolate?_forItem] at hr
      obtain ⟨item, hitem, -⟩ := Option.map_eq_some_iff.1 hr
      exact ⟨hc, hs, item, hitem⟩
  · unfold evaluated? at h
    rw [if_neg hc] at h
    contradiction

variable {entries} {v : Json} (hk : IsKey key.toList)
include hk

/-- A placeholder that cannot be evaluated is looked up, and the value comes back as it is. -/
theorem template_of_not_evaluated (hb : Braceless key.toList)
    (hv : Fields.get? entries key = some v)
    (he : (ofItem now zones (.object entries)).evaluated? (quotedKey key).toList = none) :
    (ofItem now zones (.object entries)).template (quotedKeyTemplate key) = v := by
  rw [template_quotedKey hk hb, he, referenced?_quotedKey hk rfl hv]
  rfl

/-- A placeholder that looks like code and can be evaluated gives the value that was read back from
its text, with its numbers as doubles. -/
theorem template_of_evaluated (hb : Braceless key.toList)
    (hc : looksLikeCode (quotedKey key).toList = true)
    (hs : Screen.issues 10000 (quotedKey key) = []) {entries' : Fields Json} {w : Json}
    (hr : (Json.object entries).reread? (Json.maxNesting - 1) = some (.object entries'))
    (hw : Fields.get? entries' key = some w) :
    (ofItem now zones (.object entries)).template (quotedKeyTemplate key) = w.throughDoubles := by
  rw [template_quotedKey hk hb, evaluated?_quotedKey now zones entries hc,
    evaluate_quotedKey hk now zones hs hr hw]
  rfl

end

/-- A value comes back exactly as it is stored under the key iff the key does not make the
placeholder look like code, or makes it one that is refused, or the item cannot be read back from
its text, or the value is the same when it is read back and its numbers are doubles. -/
theorem template_quotedKey_eq_iff {key : String} (hk : IsKey key.toList)
    (hb : Braceless key.toList) (now : Time.Timestamp) (zones : Time.ZoneDatabase)
    {entries : Fields Json} {v : Json} (hv : Fields.get? entries key = some v) :
    (ofItem now zones (.object entries)).template (quotedKeyTemplate key) = v ↔
      (looksLikeCode (quotedKey key).toList = true → Screen.issues 10000 (quotedKey key) = [] →
        ∀ item, (Json.object entries).reread? (Json.maxNesting - 1) = some item →
          ∃ w, item.field? key = some w ∧ w.throughDoubles = v) := by
  constructor
  · intro ht hc hs item hr
    obtain ⟨entries', he, rfl⟩ := Option.map_eq_some_iff.1 hr
    have hk' := Json.get?_rereadEntries? he key
    rw [hv] at hk'
    obtain ⟨w, hw, -⟩ := Option.map_eq_some_iff.1 hk'.symm
    exact ⟨w, hw, (template_of_evaluated now zones hk hb hc hs hr hw).symm.trans ht⟩
  · intro h
    cases hx : (ofItem now zones (.object entries)).evaluated? (quotedKey key).toList with
    | none => exact template_of_not_evaluated now zones hk hb hv hx
    | some x =>
      obtain ⟨hc, hs, item, hr⟩ := of_evaluated?_quotedKey now zones entries hx
      obtain ⟨entries', he, rfl⟩ := Option.map_eq_some_iff.1 hr
      obtain ⟨w, hw, ht⟩ := h hc hs _ hr
      rw [template_of_evaluated now zones hk hb hc hs hr hw, ht]

theorem template_content_type_eq_iff :
    IsKey "content-type".toList ∧ Braceless "content-type".toList ∧
      Fields.get? [("content-type", Json.string "text")] "content-type" = some (.string "text") ∧
      ((ofItem ⟨0, 0⟩ .known (.object [("content-type", .string "text")])).template
          (quotedKeyTemplate "content-type") = .string "text" ↔
        (looksLikeCode (quotedKey "content-type").toList = true →
          Screen.issues 10000 (quotedKey "content-type") = [] →
            ∀ item, (Json.object [("content-type", .string "text")]).reread? (Json.maxNesting - 1) =
                some item →
              ∃ w, item.field? "content-type" = some w ∧ w.throughDoubles = .string "text")) := by
  have hk : IsKey "content-type".toList := by decide
  have hb : Braceless "content-type".toList := by decide
  exact ⟨hk, hb, rfl, template_quotedKey_eq_iff hk hb ⟨0, 0⟩ .known rfl⟩

/-- The key `a-b` makes the placeholder look like code, and no double is the number under it. -/
theorem template_changes_large_number :
    Fields.get? [("a-b", Json.number (.whole 9007199254740993))] "a-b" =
        some (.number (.whole 9007199254740993)) ∧
      (ofItem ⟨0, 0⟩ .known (.object [("a-b", .number (.whole 9007199254740993))])).template
          "\x7b\x7b$json[\x22a-b\x22]\x7d\x7d" ≠
        .number (.whole 9007199254740993) := by
  have hk : IsKey "a-b".toList := by decide
  have hb : Braceless "a-b".toList := by decide
  have hr : (Json.object [("a-b", .number (.whole 9007199254740993))]).reread?
      (Json.maxNesting - 1) = some (.object [("a-b", .number (.whole 9007199254740993))]) :=
    rfl
  have ht := template_of_evaluated ⟨0, 0⟩ .known hk hb (by decide) (by decide +kernel) hr rfl
  refine ⟨rfl, fun he => ?_⟩
  have hn : (Json.number (.whole 9007199254740993)).throughDoubles =
      .number (.whole 9007199254740993) :=
    ht.symm.trans he
  -- the double is not safe, so it is not written as a whole number
  have hd : Json.asNat? Json.sizeBound (Json.number (.whole 9007199254740993)).throughDoubles =
      none := by
    decide +kernel
  rw [hn] at hd
  exact absurd hd (by decide)

end Resolver

end Workflow
