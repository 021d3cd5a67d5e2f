import Mathlib.Data.List.TakeDrop
import Mathlib.Tactic.Common
import Workflow.Evaluate
import Workflow.Proofs.Path.Composition
import Workflow.Proofs.Reference.Forms

/-! References that are roots with hops behind them, as they are written, and what reading them as
references gives. -/
namespace Workflow

open Text

/-- A name as expressions spell it. -/
def IsIdent (s : List Char) : Prop :=
  ∃ c rest, s = c :: rest ∧ Lexer.isNameStart c = true ∧ ∀ d ∈ rest, Lexer.isNamePart d = true

theorem isIdent_cons {c : Char} {rest : List Char} :
    IsIdent (c :: rest) ↔ Lexer.isNameStart c = true ∧ rest.all Lexer.isNamePart = true := by
  rw [List.all_eq_true]
  constructor
  · rintro ⟨d, more, he, h⟩
    obtain ⟨rfl, rfl⟩ := List.cons.inj he
    exact h
  · exact fun h => ⟨c, rest, rfl, h⟩

instance : DecidablePred IsIdent
  | [] => isFalse fun ⟨_, _, he, _⟩ => List.cons_ne_nil _ _ he.symm
  | _ :: _ => decidable_of_iff _ isIdent_cons.symm

/-- A text that stands for itself between double quotes. -/
def IsQuotable (s : List Char) : Prop :=
  ∀ c ∈ s, c ≠ '\x22' ∧ c ≠ '\\'

instance : DecidablePred IsQuotable :=
  List.decidableBAll fun c => c ≠ '\x22' ∧ c ≠ '\\'

/-- A text that stands for itself between double quotes in brackets. -/
structure IsKey (s : List Char) : Prop where
  nonempty : s ≠ []
  quotable : IsQuotable s
  bracket : ∀ c ∈ s, c ≠ ']'

theorem isKey_iff {s : List Char} : IsKey s ↔ s ≠ [] ∧ IsQuotable s ∧ ']' ∉ s :=
  ⟨fun h => ⟨h.nonempty, h.quotable, fun hm => h.bracket _ hm rfl⟩,
    fun ⟨hs, hq, hb⟩ => ⟨hs, hq, fun _ hc he => hb (he ▸ hc)⟩⟩

instance : DecidablePred IsKey :=
  fun _ => decidable_of_iff _ isKey_iff.symm

/-- A text that no index begins with. -/
def IsNoIndex (s : List Char) : Prop :=
  ∀ c ∈ s.head?, c ≠ '+' ∧ Number.isDigit c = false

instance : DecidablePred IsNoIndex :=
  fun s => Option.decidableForallMem s.head?

/-- One hop of a path: `.name`, `["key"]` or `[index]`. -/
inductive Hop where
  | name (s : List Char) (h : IsIdent s)
  | key (s : List Char) (h : IsKey s)
  | index (n : Nat)

namespace Hop

def text : Hop → List Char
  | .name s _ => '.' :: s
  | .key s _ => '[' :: '\x22' :: (s ++ ['\x22', ']'])
  | .index n => '[' :: ((toString n).toList ++ [']'])

def segment : Hop → String
  | .name s _ => String.ofList s
  | .key s _ => String.ofList s
  | .index n => toString n

def IsIndex : Hop → Prop
  | .index _ => True
  | _ => False

theorem text_key_append {s : List Char} (h : IsKey s) (rest : List Char) :
    (Hop.key s h).text ++ rest = '[' :: '\x22' :: (s ++ '\x22' :: ']' :: rest) := by
  simp only [text, List.cons_append, List.append_assoc, List.nil_append]

theorem text_index_append (n : Nat) (rest : List Char) :
    (Hop.index n).text ++ rest = '[' :: ((toString n).toList ++ ']' :: rest) := by
  simp only [text, List.cons_append, List.append_assoc, List.nil_append]

end Hop

/-- Where a path starts. -/
inductive Root where
  | json
  | vars
  | workflow
  | execution
  | node (name : List Char) (h : IsQuotable name)

namespace Root

def text : Root → List Char
  | .json => "$json".toList
  | .vars => "$vars".toList
  | .workflow => "$workflow".toList
  | .execution => "$execution".toList
  | .node name _ => "$node".toList ++ '[' :: '\x22' :: (name ++ ['\x22', ']'])

theorem text_node_append {name : List Char} (h : IsQuotable name) (rest : List Char) :
    (Root.node name h).text ++ rest =
      "$node".toList ++ '[' :: '\x22' :: (name ++ '\x22' :: ']' :: rest) := by
  have ha : '[' :: '\x22' :: (name ++ ['\x22', ']']) ++ rest =
      '[' :: '\x22' :: (name ++ '\x22' :: ']' :: rest) := by
    simp only [List.append_assoc, List.cons_append, List.nil_append]
  exact (List.append_assoc _ _ _).trans (congrArg ("$node".toList ++ ·) ha)

/-- The reference to what lies behind a root. -/
def reference (path : List Char) : Root → Reference
  | .json => .json path
  | .vars => .vars path
  | .workflow => .workflow path
  | .execution => .execution path
  | .node name _ => .node (String.ofList name) path

/-- The value of a root. -/
def value? (item : Json) (ctx : Option Context) : Root → Option Json
  | .json => some item
  | .vars => ctx.map (.object ·.vars)
  | .workflow => ctx.map (·.workflow)
  | .execution => ctx.map (·.execution)
  | .node name _ => ctx.bind (·.node.get? (String.ofList name))

end Root

/-- A root with hops behind it. An index right behind `$json` would pick one of several items. -/
structure PlainReference where
  root : Root
  hops : List Hop
  start : root = .json → ∀ hop ∈ hops.head?, ¬hop.IsIndex

namespace PlainReference

def path (p : PlainReference) : List Char :=
  p.hops.flatMap Hop.text

def text (p : PlainReference) : List Char :=
  p.root.text ++ p.path

end PlainReference

theorem isNamePart_of_isNameStart {c : Char} (h : Lexer.isNameStart c = true) :
    Lexer.isNamePart c = true := by
  unfold Lexer.isNamePart
  rw [h, Bool.true_or]

theorem IsIdent.isNamePart {s : List Char} (h : IsIdent s) {c : Char} (hc : c ∈ s) :
    Lexer.isNamePart c = true := by
  obtain ⟨d, rest, rfl, hd, hrest⟩ := h
  rcases List.mem_cons.1 hc with rfl | hc
  · exact isNamePart_of_isNameStart hd
  · exact hrest c hc

theorem not_isNameStart_of_isDigit {c : Char} (h : Number.isDigit c = true) :
    Lexer.isNameStart c = false := by
  have hall : ∀ n < 128, Number.isDigit (Char.ofNat n) = true →
      Lexer.isNameStart (Char.ofNat n) = false := by
    decide +kernel
  have hlt : c.toNat < 128 := by
    have := toNat_of_isDigit h
    omega
  simpa only [Char.ofNat_toNat] using hall c.toNat hlt (by rwa [Char.ofNat_toNat])

theorem IsIdent.isNoIndex {s : List Char} (h : IsIdent s) : IsNoIndex s := by
  obtain ⟨d, rest, rfl, hd, -⟩ := h
  rintro c hc
  obtain rfl : d = c := by simpa using hc
  refine ⟨?_, ?_⟩
  · rintro rfl
    exact absurd hd (by decide)
  · by_contra hc
    rw [not_isNameStart_of_isDigit (by simpa using hc)] at hd
    contradiction

namespace Path

theorem bracket_index (n : Nat) (rest : List Char) :
    bracket ((toString n).toList ++ ']' :: rest) = ((toString n).toList, rest) := by
  have hd : ∀ c ∈ (toString n).toList, Number.isDigit c = true := fun c => isDigit_of_mem_toString
  have hne {d : Char} (hn : Number.isDigit d = false) : ∀ c ∈ (toString n).toList, c ≠ d := by
    rintro c hc rfl
    rw [hd c hc] at hn
    contradiction
  have hb : ']' ∉ (toString n).toList := fun h => hne (by decide) _ h rfl
  have ht : trim (toString n).toList = (toString n).toList :=
    trim_eq_self (fun c hc => not_isBlank_of_isDigit (hd c (List.mem_of_mem_head? hc)))
      fun c hc => not_isBlank_of_isDigit (hd c (List.mem_of_getLast? hc))
  rw [bracket_append_cons hb, bracket_plain hb, ht]
  intro c hc
  have hmem := List.mem_of_mem_head? hc
  exact ⟨hne (by decide) c hmem, hne (by decide) c hmem⟩

/-- The segment of a hop is what the hop stands for. -/
theorem map_segmentsFrom_hop (hop : Hop) {rest : List Char} (h : IsBreak rest) :
    (segmentsFrom [] (hop.text ++ rest)).map String.ofList =
      hop.segment :: (segmentsFrom [] rest).map String.ofList := by
  cases hop with
  | name s hs =>
    have hsep : ∀ c ∈ s, c ≠ '.' ∧ c ≠ '[' := by
      refine fun c hc => ⟨?_, ?_⟩
      · rintro rfl
        exact absurd (hs.isNamePart hc) (by decide)
      · rintro rfl
        exact absurd (hs.isNamePart hc) (by decide)
    have hne : s ≠ [] := by
      obtain ⟨c, tail, rfl, -⟩ := hs
      exact List.cons_ne_nil _ _
    show (segmentsFrom [] ('.' :: (s ++ rest))).map String.ofList = _
    rw [segmentsFrom, if_neg (by decide), if_pos rfl, segmentsFrom_name hsep,
      segmentsFrom_of_break h, List.append_nil, List.reverse_reverse, segment_of_ne_nil hne]
    rfl
  | key s hs =>
    have hquote : '\x22' ∉ s := fun hm => (hs.quotable _ hm).1 rfl
    have hbracket : ']' ∉ s := fun hm => hs.bracket _ hm rfl
    rw [Hop.text_key_append, segmentsFrom, if_pos rfl, bracket_quoted hquote hbracket,
      segment_of_ne_nil hs.nonempty]
    rfl
  | index n =>
    rw [Hop.text_index_append, segmentsFrom, if_pos rfl, bracket_index,
      segment_of_ne_nil (toString_ne_nil n)]
    show String.ofList (toString n).toList :: _ = _
    rw [String.ofList_toList]
    rfl

theorem isBreak_text (hop : Hop) (rest : List Char) : IsBreak (hop.text ++ rest) := by
  cases hop with
  | name s hs => exact fun c hc => Or.inl (Option.some.inj hc).symm
  | key s hs => exact fun c hc => Or.inr (Option.some.inj hc).symm
  | index n => exact fun c hc => Or.inr (Option.some.inj hc).symm

theorem isBreak_texts (hops : List Hop) : IsBreak (hops.flatMap Hop.text) := by
  cases hops with
  | nil => exact fun c hc => absurd hc nofun
  | cons hop hops => exact isBreak_text hop _

/-- Hops are read back one by one. -/
theorem segments_texts (hops : List Hop) :
    segments (hops.flatMap Hop.text) = hops.map Hop.segment := by
  unfold segments
  induction hops with
  | nil => rw [List.flatMap_nil, segmentsFrom]; rfl
  | cons hop hops ih =>
    rw [List.flatMap_cons, map_segmentsFrom_hop hop (isBreak_texts hops), ih, List.map_cons]

end Path

namespace Reference

/-- An index behind `$json` begins with a digit. -/
theorem indexed?_json {path : List Char} (hb : Path.IsBreak path)
    (h : ∀ rest, path = '[' :: rest → ∀ c ∈ (skipBlanks rest).head?, Number.isDigit c = false) :
    indexed? ("$json".toList ++ path) = none := by
  cases path with
  | nil => rfl
  | cons c rest =>
    rcases hb c rfl with rfl | rfl
    · rfl
    · have hd : (skipBlanks rest).takeWhile Number.isDigit = [] := takeWhile_eq_nil (h rest rfl)
      show (if ((skipBlanks rest).takeWhile Number.isDigit).isEmpty then none else _) = _
      rw [hd]
      rfl

end Reference

namespace PlainReference

theorem isBreak_path (p : PlainReference) : Path.IsBreak p.path :=
  Path.isBreak_texts p.hops

/-- Behind `$json` and an opening bracket there is a quote. -/
theorem not_isDigit_of_bracket {hops : List Hop} (h : ∀ hop ∈ hops.head?, ¬hop.IsIndex)
    {rest : List Char} (he : hops.flatMap Hop.text = '[' :: rest) :
    ∀ c ∈ (Reference.skipBlanks rest).head?, Number.isDigit c = false := by
  cases hops with
  | nil => exact absurd he nofun
  | cons hop hops =>
    cases hop with
    | name s hs => exact absurd (List.cons.inj he).1 (by decide)
    | key s hs =>
      obtain rfl := (List.cons.inj he).2
      rintro c hc
      obtain rfl : '\x22' = c := Option.some.inj hc
      decide
    | index n => exact absurd trivial (h _ rfl)

/-- The current item is one of a kind: its references are always read. -/
theorem parse?_json {p : PlainReference} (h : p.root = .json) :
    Reference.parse? p.text = some (.json p.path) := by
  have hb := p.isBreak_path
  have hi : Reference.indexed? ("$json".toList ++ p.path) = none :=
    Reference.indexed?_json hb fun rest he => not_isDigit_of_bracket (p.start h) he
  unfold text Reference.parse?
  rw [h]
  unfold Root.text
  rw [hi, Reference.root?_append hb "$json"]
  rfl

/-- A plain reference is read as a reference to its root, unless its path is on several lines. -/
theorem eq_of_parse? {p : PlainReference} {r : Reference}
    (h : Reference.parse? p.text = some r) : r = p.root.reference p.path := by
  have hb := p.isBreak_path
  have hj : p.root = .json → Reference.parse? p.text = some (.json p.path) := parse?_json
  unfold text at h hj
  generalize p.path = path at h hb hj ⊢
  generalize p.root = root at h hj ⊢
  cases root with
  | json => exact Option.some.inj (h.symm.trans (hj rfl))
  | vars =>
    have hr : Reference.parse? ("$vars".toList ++ path) = some (.vars path) := by
      unfold Reference.parse?
      rw [Reference.root?_append hb]
      rfl
    exact Option.some.inj (h.symm.trans hr)
  | workflow =>
    have hr : Reference.parse? ("$workflow".toList ++ path) = some (.workflow path) := by
      unfold Reference.parse?
      rw [Reference.root?_append hb]
      rfl
    exact Option.some.inj (h.symm.trans hr)
  | execution =>
    have hr : Reference.parse? ("$execution".toList ++ path) = some (.execution path) := by
      unfold Reference.parse?
      rw [Reference.root?_append hb]
      rfl
    exact Option.some.inj (h.symm.trans hr)
  | node name hn =>
    rw [Root.text_node_append] at h
    have hname : '\x22' ∉ name := fun hm => (hn _ hm).1 rfl
    have hnode := Reference.node?_quoted (Or.inl rfl) hname (List.forall_mem_nil _)
      (List.forall_mem_nil _) path
    rw [List.nil_append, List.nil_append] at hnode
    unfold Reference.parse? at h
    cases ho : Reference.oneLine? path with
    | none =>
      -- no other form begins with `$node`
      rw [hnode, ho] at h
      exact absurd h nofun
    | some path' =>
      rw [hnode, ho] at h
      rw [← (Reference.oneLine?_eq_some_iff.1 ho).1]
      exact (Option.some.inj h).symm

/-- The value of a plain reference lies at the end of its hops. -/
theorem of_resolve? {p : PlainReference} {item v : Json} {ctx : Option Context}
    (h : ((Reference.parse? p.text).bind fun r => r.resolve? item ctx) = some v) :
    ∃ j, p.root.value? item ctx = some j ∧
      Path.lookupSegments j (p.hops.map Hop.segment) = some v := by
  obtain ⟨r, hr, hv⟩ := Option.bind_eq_some_iff.1 h
  obtain rfl := eq_of_parse? hr
  have hs : ∀ j, Path.lookup j p.path = Path.lookupSegments j (p.hops.map Hop.segment) := fun j => by
    unfold Path.lookup path
    rw [Path.segments_texts]
  generalize p.root = root at hv ⊢
  cases root with
  | json => exact ⟨item, rfl, (hs item).symm.trans hv⟩
  | vars =>
    obtain ⟨c, hc, hv⟩ := Option.bind_eq_some_iff.1 hv
    rw [Path.lookupIn_eq_lookup, hs] at hv
    exact ⟨_, by rw [hc]; rfl, hv⟩
  | workflow =>
    obtain ⟨c, hc, hv⟩ := Option.bind_eq_some_iff.1 hv
    rw [hs] at hv
    exact ⟨_, by rw [hc]; rfl, hv⟩
  | execution =>
    obtain ⟨c, hc, hv⟩ := Option.bind_eq_some_iff.1 hv
    rw [hs] at hv
    exact ⟨_, by rw [hc]; rfl, hv⟩
  | node name hn =>
    obtain ⟨c, hc, hv⟩ := Option.bind_eq_some_iff.1 hv
    obtain ⟨j, hj, hv⟩ := Option.bind_eq_some_iff.1 hv
    rw [hs] at hv
    exact ⟨j, by rw [hc]; exact hj, hv⟩

end PlainReference

end Workflow
