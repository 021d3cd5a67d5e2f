import Workflow.Proofs.Template.Spans
import Workflow.Resolve

/-! What a template stands for: the value of its only placeholder, or the template with the values
of its placeholders in their places. Only the placeholders of the template itself are given values.
-/
namespace Workflow.Resolver

open Template Text

variable (r : Resolver)

/-- The text that takes the place of a span: a text as it is, any other value as JSON, and what
stands there if there is no value. -/
def spanText (raw : List Char) (span : Span) : String :=
  match r.content? span.content with
  | some (.string s) => s
  | some v => v.compact
  | none => String.ofList (slice span.start span.stop raw)

/-- The law of substitution for one template. -/
structure Substitution (raw : String) : Prop where
  ordered : (spans raw.toList).Pairwise fun a b => a.stop ≤ b.start
  /-- Every span covers a placeholder, the one with its content. -/
  covers : ∀ span ∈ spans raw.toList, IsContent span.content ∧ span.Covers 0 raw.toList
  /-- No placeholder begins outside of the spans. -/
  complete : ∀ before rest, raw.toList = before ++ rest → Opens rest →
    ∃ span ∈ spans raw.toList, span.start ≤ byteSize before ∧ byteSize before < span.stop
  /-- A template that is one placeholder but for white space has the value of that placeholder. -/
  whole : ∀ content, IsContent content → trim raw.toList = (Piece.placeholder content).source →
    r.template raw = (r.content? content).getD (.string raw)
  /-- Every other template is a text with values in the places of its spans. -/
  filled : ¬ IsPlaceholder (trim raw.toList) →
    r.template raw = .string (fill (r.spanText raw.toList) raw.toList 0 (spans raw.toList))
  unresolved : (∀ span ∈ spans raw.toList, r.content? span.content = none) →
    r.template raw = .string raw
  /-- What was put in is not read again: nothing else than the contents of the spans is given a
  value. -/
  once : ∀ r' : Resolver,
    (∀ span ∈ spans raw.toList, r'.content? span.content = r.content? span.content) →
      r'.template raw = r.template raw

theorem single?_eq_some_iff {s content : List Char} :
    single? s = some content ↔ IsContent content ∧ trim s = (Piece.placeholder content).source := by
  have h : placeholder? (trim s) = some (content, []) ↔
      IsContent content ∧ trim s = (Piece.placeholder content).source ++ [] :=
    placeholder?_eq_some_iff
  rw [List.append_nil] at h
  rw [← h, single?]
  cases hp : placeholder? (trim s) with
  | none => simp
  | some found =>
    obtain ⟨other, rest⟩ := found
    cases rest with
    | nil => simp
    | cons c rest => simp

theorem single?_eq_none_iff {s : List Char} : single? s = none ↔ ¬ IsPlaceholder (trim s) := by
  rw [Option.eq_none_iff_forall_ne_some]
  constructor
  · rintro h ⟨content, hc⟩
    exact h content (single?_eq_some_iff.2 hc)
  · intro h content hc
    exact h ⟨content, single?_eq_some_iff.1 hc⟩

theorem exists_trim (s : List Char) :
    ∃ a b, s = a ++ (trim s ++ b) ∧ ∀ c ∈ a, isBlank c = true := by
  have hstart := List.takeWhile_append_dropWhile (p := isBlank) (l := s)
  have hend := List.takeWhile_append_dropWhile (p := isBlank) (l := (trimStart s).reverse)
  refine ⟨s.takeWhile isBlank, ((trimStart s).reverse.takeWhile isBlank).reverse, ?_, ?_⟩
  · rw [trim, trimEnd, ← List.reverse_append, hend, List.reverse_reverse]
    exact hstart.symm
  · intro c hc
    exact List.all_eq_true.1 List.all_takeWhile c hc

/-- The only placeholder of a template is also found by the search. -/
theorem exists_span_of_single {s content : List Char} (h : single? s = some content) :
    ∃ span ∈ spans s, span.content = content := by
  obtain ⟨hc, ht⟩ := single?_eq_some_iff.1 h
  obtain ⟨a, b, hs, ha⟩ := exists_trim s
  rw [ht] at hs
  obtain ⟨span, hspan, hle, -⟩ :=
    (cuts_pieces s).exists_span_of_opens (i := 0) hs (opens_source hc b)
  obtain ⟨hspanc, before, after, hcover, hstart, -⟩ := (cuts_pieces s).covers hspan
  refine ⟨span, hspan, ?_⟩
  rw [hstart] at hle
  rw [hs] at hcover
  -- the span begins no later than the placeholder, and not in the white space before it
  rcases List.append_eq_append_iff.1 hcover with ⟨x, rfl, hx⟩ | ⟨x, rfl, hx⟩
  · obtain rfl : x = [] := by
      by_contra hne
      have hpos := byteSize_pos hne
      rw [byteSize_append] at hle
      omega
    exact (source_append_injective hc hspanc hx).1.symm
  · cases x with
    | nil => exact (source_append_injective hspanc hc hx).1
    | cons d x =>
      rw [source_placeholder] at hx
      obtain ⟨rfl, -⟩ := List.cons.inj hx
      have hblank := ha '\x7b' (List.mem_append_right _ List.mem_cons_self)
      exact absurd hblank (by decide)

variable {r}

theorem template_of_single {raw : String} {content : List Char}
    (h : single? raw.toList = some content) :
    r.template raw = (r.content? content).getD (.string raw) := by
  rw [template, h]

theorem template_of_not_single {raw : String} (h : single? raw.toList = none) :
    r.template raw = .string (String.join ((pieces raw.toList).map r.pieceText)) := by
  rw [template, h]

/-- A piece that has no value stays as it is. -/
theorem pieceText_of_none {p : Piece}
    (h : ∀ content, p = .placeholder content → r.content? content = none) :
    r.pieceText p = String.ofList p.source := by
  cases p with
  | text s => rfl
  | placeholder content => rw [pieceText, h content rfl]

theorem join_map_ofList (ps : List Piece) :
    String.join (ps.map fun p => String.ofList p.source) =
      String.ofList (ps.flatMap Piece.source) := by
  induction ps with
  | nil => rfl
  | cons p ps ih =>
    rw [List.map_cons, String.join_cons, ih, List.flatMap_cons, String.ofList_append]

theorem pieceText_eq_spanText {raw : List Char} {span : Span} (h : span.Covers 0 raw) :
    r.spanText raw span = r.pieceText (.placeholder span.content) := by
  obtain ⟨before, after, hs, hstart, hstop⟩ := h
  have hslice : slice span.start span.stop raw = (Piece.placeholder span.content).source := by
    rw [hstart, hstop, Nat.zero_add, hs, slice_append]
  rw [spanText, pieceText, hslice]
  cases r.content? span.content with
  | none => rfl
  | some v =>
    cases v with
    | string s => rfl
    | _ => rfl

theorem template_of_unresolved {raw : String}
    (h : ∀ span ∈ spans raw.toList, r.content? span.content = none) :
    r.template raw = .string raw := by
  cases hsingle : single? raw.toList with
  | some content =>
    obtain ⟨span, hspan, rfl⟩ := exists_span_of_single hsingle
    rw [template_of_single hsingle, h span hspan]
    rfl
  | none =>
    have hpieces : (pieces raw.toList).map r.pieceText =
        (pieces raw.toList).map fun p => String.ofList p.source := by
      refine List.map_congr_left fun p hp => pieceText_of_none fun content hcontent => ?_
      subst hcontent
      obtain ⟨span, hspan, rfl⟩ := exists_span_of_mem (i := 0) hp
      exact h span hspan
    rw [template_of_not_single hsingle, hpieces, join_map_ofList,
      (cuts_pieces raw.toList).flatMap_source, String.ofList_toList]

/-- Of what can be given values, only the contents of the spans matter. -/
theorem template_congr {r' : Resolver} {raw : String}
    (h : ∀ span ∈ spans raw.toList, r'.content? span.content = r.content? span.content) :
    r'.template raw = r.template raw := by
  cases hsingle : single? raw.toList with
  | some content =>
    obtain ⟨span, hspan, rfl⟩ := exists_span_of_single hsingle
    rw [template_of_single hsingle, template_of_single hsingle, h span hspan]
  | none =>
    have hpieces : (pieces raw.toList).map r'.pieceText = (pieces raw.toList).map r.pieceText := by
      refine List.map_congr_left fun p hp => ?_
      cases p with
      | text s => rfl
      | placeholder content =>
        obtain ⟨span, hspan, rfl⟩ := exists_span_of_mem (i := 0) hp
        rw [pieceText, pieceText, h span hspan]
    rw [template_of_not_single hsingle, template_of_not_single hsingle, hpieces]

/-- Every template is filled in by the law of substitution. -/
theorem template_substitutes (r : Resolver) (raw : String) : Substitution r raw where
  ordered := pairwise_spansFrom 0 (pieces raw.toList)
  covers _ hspan := (cuts_pieces raw.toList).covers hspan
  complete before rest hs ho := by
    have h := (cuts_pieces raw.toList).exists_span_of_opens (i := 0) hs ho
    rwa [Nat.zero_add] at h
  whole content hc ht := template_of_single (single?_eq_some_iff.2 ⟨hc, ht⟩)
  filled h := by
    have hfill := (cuts_pieces raw.toList).fill_eq (r.spanText raw.toList) r.pieceText
      (fun t => rfl) [] fun span hspan =>
        pieceText_eq_spanText ((cuts_pieces raw.toList).covers hspan).2
    rw [template_of_not_single (single?_eq_none_iff.2 h), ← hfill]
    rfl
  unresolved h := template_of_unresolved h
  once _ h := template_congr h

end Workflow.Resolver
