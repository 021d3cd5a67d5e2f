import Workflow.Proofs.Eval.FittingRun
import Workflow.Proofs.Evaluate
import Workflow.Proofs.Json.Fitting
import Workflow.Proofs.UnnamedRoots

/-! The outcome of a text fits the limits if the context does, the text is no longer than a text may
be, and what is built without a check is not too large. -/
namespace Workflow

open Eval Limits

/-- Whatever limits hold, a literal is no longer than the text of its expression, and neither is a
key that is not written as a number. -/
theorem texts_fit_of_parse {limits : Limits} {limit : Nat} {source : String} {e : Expr}
    (hp : Expr.parse limit source = .ok e) (hs : limits.allowsText source = true)
    (hkeys : ∀ x : Float, .key (Number.display x) ∈ e.texts →
      limits.allowsText (Number.display x) = true) :
    ∀ text ∈ e.texts, limits.allowsText text.text = true := by
  have hall (keyBytes : String → Nat) (hk : KeyMeasure keyBytes) {text : Inscription}
      (ht : text ∈ e.texts) : text.bytes keyBytes ≤ limits.maxStringLength :=
    calc text.bytes keyBytes ≤ e.textBytes keyBytes := Inscription.bytes_le_total ht
      _ ≤ source.utf8ByteSize := Parser.textBytes_parse hk hp
      _ ≤ limits.maxStringLength := allowsText_iff.1 hs
  intro text ht
  rw [allowsText_iff]
  cases text with
  | literal s => exact hall (fun _ => 0) ⟨fun _ => rfl, fun _ => Nat.zero_le _⟩ ht
  | key key =>
    by_cases hnumber : ∃ x, key = Number.display x
    · obtain ⟨x, rfl⟩ := hnumber
      exact allowsText_iff.1 (hkeys x ht)
    · -- a measure in which nothing but this key counts
      have hk : KeyMeasure fun k => if k = key then k.utf8ByteSize else 0 := by
        refine ⟨fun x => if_neg fun he => hnumber ⟨x, he.symm⟩, fun k => ?_⟩
        split
        · exact Nat.le_refl _
        · exact Nat.zero_le _
      have hkey := hall _ hk ht
      rwa [Inscription.bytes, if_pos rfl] at hkey

theorem utf8ByteSize_rootKey {ctx : Context} {e : String × Json} (he : e ∈ ctx.roots) :
    e.1.utf8ByteSize ≤ 20 := by
  have hkeys : ∀ r ∈ ContextRoot.all, r.key.utf8ByteSize ≤ 20 := by decide
  rw [Context.roots_eq_map] at he
  obtain ⟨r, hr, rfl⟩ := List.mem_map.1 he
  exact hkeys r hr

/-- The roots of a context that fits do so as values. -/
theorem fits_rootValues {limits : Limits} {roots : Fields Json}
    (hroots : Json.entriesFit limits roots = true) {name : String} {v : Value}
    (hv : named? (rootValues roots) name = some v) : v.fits limits = true := by
  obtain ⟨key, j, hj, rfl⟩ := exists_of_named?_rootValues hv
  exact Value.fits_ofJson _ (Json.entriesFit_iff.1 hroots (key, j) (Fields.mem_of_lookup hj)).2

/-- What is built without a check is not too large when an expression is run: keys that are written
as numbers, values that unchecked functions return, and the texts of points in time inside the
value. -/
structure UncheckedFits (s : Setting) (e : Expr) : Prop where
  keys : ∀ x : Float, .key (Number.display x) ∈ e.texts →
    s.limits.allowsText (Number.display x) = true
  calls : ∀ stop, runChecked stop e s {} = Eval.run e s {}
  times : ∀ v t, Eval.run e s {} = .ok v t → v.timesFit s.limits = true

theorem fits_of_ofValue? {limits : Limits} {v : Value} (hv : v.fits limits = true)
    (ht : v.timesFit limits = true) {outcome : Outcome} (h : Outcome.ofValue? v = some outcome) :
    outcome.toJson.fits limits = true := by
  unfold Outcome.ofValue? at h
  split at h
  · obtain rfl := Option.some.inj h
    exact ht
  · obtain ⟨j, hj, rfl⟩ := Option.map_eq_some_iff.1 h
    exact Value.fits_toJson? hv ht hj

theorem fits_of_runIn {s : Setting} (hs : s.Fits) {e : Expr} (ht : TextsFit s e.texts)
    (hu : UncheckedFits s e) {outcome : Outcome} (h : runIn s e = .ok outcome) :
    outcome.toJson.fits s.limits = true := by
  obtain ⟨v, t, hrun, ho⟩ := exists_of_runIn h
  have hchecked : runChecked (exceed .fuel) e s {} = .ok v t := (hu.calls _).trans hrun
  have hv : v.fits s.limits = true := hs.run_checked Ensures.fail ht {} v t hchecked
  exact fits_of_ofValue? hv (hu.times v t hrun) ho

/-- In the outcome of a text that is no longer than a text may be, in a context that fits, no text
is longer and no collection larger than allowed, unless something that is built without a check
is. -/
theorem evaluate_fits {limits : Limits} (hl : limits.Roomy) {source : String}
    (hsource : limits.allowsText source = true) {ctx : Context}
    (hctx : ∀ e ∈ ctx.roots, e.2.fits limits = true) {now : Time.Timestamp}
    {elapsed : Nat → Nat} {zones : Time.ZoneDatabase}
    (hunchecked : ∀ roots e, ctx.isolate? = some roots →
      Expr.parse limits.maxDepth source = .ok e →
        UncheckedFits { limits, now, roots := rootValues roots, elapsed, zones } e)
    {outcome : Outcome} (h : evaluate limits now source ctx elapsed zones = .ok outcome) :
    outcome.toJson.fits limits = true := by
  obtain ⟨roots, e, hi, hp, hrun⟩ := exists_of_evaluate h
  have hu := hunchecked roots e hi hp
  have hall : Json.entriesFit limits ctx.roots = true :=
    Json.entriesFit_iff.2 fun e he => ⟨hl.allows (utf8ByteSize_rootKey he), hctx e he⟩
  have hs : Setting.Fits { limits, now, roots := rootValues roots, elapsed, zones } :=
    ⟨hl, fun x v => fits_rootValues (Json.fits_rereadEntries? hi hall).2⟩
  exact fits_of_runIn hs (texts_fit_of_parse hp hsource hu.keys) hu hrun

/-- A text of 20 bytes. -/
def padEndText : String :=
  "'a'.padEnd(20,'é')"

def padEndExpr : Expr :=
  .call (.member (.literal (.string "a")) "padEnd" false)
    [.literal (.number (Number.ofDecimal 20 0)), .literal (.string "é")] false

/-- Twenty characters, which are 39 bytes. -/
def paddedText : String :=
  String.ofList ('a' :: List.replicate 19 'é')

theorem parse_padEndText : Expr.parse 64 padEndText = .ok padEndExpr := by
  with_unfolding_all rfl

/-- An empty context, and room for texts of some bytes. -/
def padEndSetting (bytes : Nat) : Setting :=
  { limits := { maxStringLength := bytes }, now := ⟨0, 0⟩,
    roots := rootValues ({} : Context).roots, zones := .known }

theorem isolate_empty : ({} : Context).isolate? = some ({} : Context).roots :=
  rfl

theorem evaluate_padEndText (bytes : Nat) :
    evaluate (padEndSetting bytes).limits ⟨0, 0⟩ padEndText {} =
      runIn (padEndSetting bytes) padEndExpr :=
  have hs : Screen.issues 10000 padEndText = [] := by decide +kernel
  evaluate_eq_runIn hs isolate_empty parse_padEndText _ _ _

theorem uncheckedFits_padEndExpr : UncheckedFits (padEndSetting 39) padEndExpr where
  keys x h := by
    rcases List.mem_cons.1 h with h | h
    · cases h
    · cases List.mem_singleton.1 h
  calls stop := by
    obtain ⟨t, hchecked, hrun⟩ : ∃ t,
        runChecked stop padEndExpr (padEndSetting 39) {} = .ok (.string paddedText) t ∧
          Eval.run padEndExpr (padEndSetting 39) {} = .ok (.string paddedText) t :=
      ⟨_, rfl, rfl⟩
    rw [hchecked, hrun]
  times v t h := by
    obtain ⟨t', hrun⟩ : ∃ t', Eval.run padEndExpr (padEndSetting 39) {} =
        .ok (.string paddedText) t' :=
      ⟨_, rfl⟩
    rw [hrun] at h
    cases h
    rfl

theorem evaluate_padded_fits :
    (padEndSetting 39).limits.Roomy ∧ (padEndSetting 39).limits.allowsText padEndText = true ∧
      (∀ e ∈ ({} : Context).roots, e.2.fits (padEndSetting 39).limits = true) ∧
      evaluate (padEndSetting 39).limits ⟨0, 0⟩ padEndText {} = .ok (.plain (.string paddedText)) ∧
        (Outcome.plain (.string paddedText)).toJson.fits (padEndSetting 39).limits = true := by
  have hl : (padEndSetting 39).limits.Roomy := ⟨by decide, by decide, by decide⟩
  have hs : (padEndSetting 39).limits.allowsText padEndText = true := by decide
  have he : evaluate (padEndSetting 39).limits ⟨0, 0⟩ padEndText {} =
      .ok (.plain (.string paddedText)) :=
    (evaluate_padEndText 39).trans rfl
  have hctx : ∀ e ∈ ({} : Context).roots, e.2.fits (padEndSetting 39).limits = true := by decide
  refine ⟨hl, hs, hctx, he, evaluate_fits hl hs hctx (fun roots e hi hp => ?_) he⟩
  obtain rfl := Option.some.inj (isolate_empty.symm.trans hi)
  obtain rfl := Except.ok.inj (parse_padEndText.symm.trans hp)
  exact uncheckedFits_padEndExpr

/-- Under a limit of 25 bytes the same text yields more: the padding counts the 20 characters. -/
theorem evaluate_padded_too_large :
    (padEndSetting 25).limits.Roomy ∧ (padEndSetting 25).limits.allowsText padEndText = true ∧
      (∀ e ∈ ({} : Context).roots, e.2.fits (padEndSetting 25).limits = true) ∧
      evaluate (padEndSetting 25).limits ⟨0, 0⟩ padEndText {} = .ok (.plain (.string paddedText)) ∧
        (Outcome.plain (.string paddedText)).toJson.fits (padEndSetting 25).limits = false := by
  have hl : (padEndSetting 25).limits.Roomy := ⟨by decide, by decide, by decide⟩
  exact ⟨hl, by decide, by decide, (evaluate_padEndText 25).trans rfl, by decide⟩

end Workflow
