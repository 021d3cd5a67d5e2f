import Mathlib.Tactic.Common
import Workflow.Template

/-! What a placeholder is, apart from the way it is read, and where the placeholders of a text stand.
The reader accepts exactly the placeholders, and a text begins with at most one. The pieces of a text
are the text cut at the placeholders that are found from the left; their spans do not overlap, and
outside of them no placeholder begins. -/
namespace Workflow.Template

def Braceless (s : List Char) : Prop :=
  ∀ c ∈ s, c ≠ '\x7b' ∧ c ≠ '\x7d'

instance : DecidablePred Braceless :=
  List.decidableBAll fun c => c ≠ '\x7b' ∧ c ≠ '\x7d'

/-- Content of a placeholder: characters other than braces, and groups of such characters between
single braces. -/
inductive IsContent : List Char → Prop
  | nil : IsContent []
  | char {c : Char} {s : List Char} :
    c ≠ '\x7b' → c ≠ '\x7d' → IsContent s → IsContent (c :: s)
  | group {inner s : List Char} :
    Braceless inner → IsContent s → IsContent ('\x7b' :: (inner ++ '\x7d' :: s))

/-- A text that is one placeholder. -/
def IsPlaceholder (s : List Char) : Prop :=
  ∃ content, IsContent content ∧ s = (Piece.placeholder content).source

/-- A text at whose start a placeholder stands. -/
def Opens (s : List Char) : Prop :=
  ∃ p, IsPlaceholder p ∧ p <+: s

theorem braceless_cons {c : Char} {s : List Char} :
    Braceless (c :: s) ↔ (c ≠ '\x7b' ∧ c ≠ '\x7d') ∧ Braceless s :=
  List.forall_mem_cons

theorem source_placeholder (content rest : List Char) :
    (Piece.placeholder content).source ++ rest =
      '\x7b' :: '\x7b' :: (content ++ '\x7d' :: '\x7d' :: rest) := by
  simp only [Piece.source, List.append_assoc, List.cons_append, List.nil_append]

/-- What the reader has still to pass before the closing braces of the placeholder: inside of a
group that is the end of the group first. -/
def IsOpenContent (inner : Bool) (s : List Char) : Prop :=
  match inner with
  | false => IsContent s
  | true => ∃ a b, Braceless a ∧ IsContent b ∧ s = a ++ '\x7d' :: b

theorem content?_inner (done : List Char) (c : Char) (s : List Char) :
    content? true done (c :: s) =
      if c = '\x7b' then none else content? (c != '\x7d') (c :: done) s :=
  rfl

theorem content?_open (done s : List Char) :
    content? false done ('\x7b' :: s) = content? true ('\x7b' :: done) s :=
  rfl

theorem content?_close (done s : List Char) :
    content? false done ('\x7d' :: s) =
      match s with
      | '\x7d' :: rest => some (done.reverse, rest)
      | _ => none :=
  rfl

theorem content?_char {c : Char} (ho : c ≠ '\x7b') (hc : c ≠ '\x7d') (done s : List Char) :
    content? false done (c :: s) = content? false (c :: done) s := by
  show (if c = '\x7b' then _ else if c = '\x7d' then _ else _) = _
  rw [if_neg ho, if_neg hc]

theorem content?_complete {inner : Bool} {content : List Char} (h : IsOpenContent inner content)
    (done rest : List Char) :
    content? inner done (content ++ '\x7d' :: '\x7d' :: rest) =
      some (done.reverse ++ content, rest) := by
  induction content generalizing inner done with
  | nil =>
    cases inner with
    | false => simp [content?]
    | true =>
      obtain ⟨a, b, -, -, he⟩ := h
      exact absurd he.symm (by simp)
  | cons c s ih =>
    -- the step is the same in all cases: one character is passed, which may change the mode
    have hstep (next : Bool) (hn : IsOpenContent next s)
        (he : content? inner done (c :: (s ++ '\x7d' :: '\x7d' :: rest)) =
          content? next (c :: done) (s ++ '\x7d' :: '\x7d' :: rest)) :
        content? inner done (c :: s ++ '\x7d' :: '\x7d' :: rest) =
          some (done.reverse ++ c :: s, rest) := by
      rw [List.cons_append, he, ih hn]
      simp only [List.reverse_cons, List.append_assoc, List.cons_append, List.nil_append]
    cases inner with
    | false =>
      cases h with
      | char ho hc hs => exact hstep false hs (content?_char ho hc _ _)
      | @group a b ha hb =>
        exact hstep true ⟨a, b, ha, hb, rfl⟩ (content?_open _ _)
    | true =>
      obtain ⟨a, b, ha, hb, he⟩ := h
      rcases a with _ | ⟨d, a⟩
      · obtain ⟨rfl, rfl⟩ := List.cons.inj he
        exact hstep false hb (content?_inner _ _ _)
      · obtain ⟨rfl, rfl⟩ := List.cons.inj he
        obtain ⟨⟨ho, hc⟩, ha⟩ := braceless_cons.1 ha
        refine hstep true ⟨a, b, ha, hb, rfl⟩ ?_
        rw [content?_inner, if_neg ho, bne_iff_ne.2 hc]

theorem content?_sound {inner : Bool} {done s t rest : List Char}
    (h : content? inner done s = some (t, rest)) :
    ∃ content, IsOpenContent inner content ∧ t = done.reverse ++ content ∧
      s = content ++ '\x7d' :: '\x7d' :: rest := by
  induction s generalizing inner done with
  | nil => simp [content?] at h
  | cons c s ih =>
    -- what is read behind the first character
    have hstep (next : Bool) (he : content? next (c :: done) s = some (t, rest))
        (hc : ∀ content, IsOpenContent next content → IsOpenContent inner (c :: content)) :
        ∃ content, IsOpenContent inner content ∧ t = done.reverse ++ content ∧
          c :: s = content ++ '\x7d' :: '\x7d' :: rest := by
      obtain ⟨content, hi, ht, hs⟩ := ih he
      refine ⟨c :: content, hc content hi, ?_, by rw [hs, List.cons_append]⟩
      rw [ht, List.reverse_cons, List.append_assoc, List.cons_append, List.nil_append]
    cases inner with
    | true =>
      rw [content?_inner] at h
      by_cases ho : c = '\x7b'
      · rw [if_pos ho] at h
        cases h
      · rw [if_neg ho] at h
        by_cases hc : c = '\x7d'
        · subst hc
          exact hstep false h fun content hi =>
            ⟨[], content, List.forall_mem_nil _, hi, rfl⟩
        · rw [bne_iff_ne.2 hc] at h
          refine hstep true h ?_
          rintro _ ⟨a, b, ha, hb, rfl⟩
          exact ⟨c :: a, b, braceless_cons.2 ⟨⟨ho, hc⟩, ha⟩, hb, rfl⟩
    | false =>
      by_cases ho : c = '\x7b'
      · subst ho
        refine hstep true h ?_
        rintro _ ⟨a, b, ha, hb, rfl⟩
        exact .group ha hb
      · by_cases hc : c = '\x7d'
        · subst hc
          rw [content?_close] at h
          split at h
          · cases h
            exact ⟨[], .nil, (List.append_nil _).symm, rfl⟩
          · cases h
        · rw [content?_char ho hc] at h
          exact hstep false h fun content hi => .char ho hc hi

/-- The reader finds content exactly where a placeholder with it stands. -/
theorem placeholder?_eq_some_iff {s content rest : List Char} :
    placeholder? s = some (content, rest) ↔
      IsContent content ∧ s = (Piece.placeholder content).source ++ rest := by
  rw [source_placeholder]
  constructor
  · intro h
    unfold placeholder? at h
    split at h
    · obtain ⟨content', hi, ht, hs⟩ := content?_sound h
      rw [List.reverse_nil, List.nil_append] at ht
      exact ⟨ht ▸ hi, by rw [hs, ht]⟩
    · cases h
  · rintro ⟨hc, rfl⟩
    have ho : IsOpenContent false content := hc
    exact content?_complete ho [] rest

theorem placeholder?_source {content : List Char} (hc : IsContent content) (rest : List Char) :
    placeholder? ((Piece.placeholder content).source ++ rest) = some (content, rest) :=
  placeholder?_eq_some_iff.2 ⟨hc, rfl⟩

theorem opens_source {content : List Char} (hc : IsContent content) (rest : List Char) :
    Opens ((Piece.placeholder content).source ++ rest) :=
  ⟨_, ⟨content, hc, rfl⟩, List.prefix_append _ _⟩

theorem opens_iff {s : List Char} :
    Opens s ↔ ∃ content rest, placeholder? s = some (content, rest) := by
  constructor
  · rintro ⟨_, ⟨content, hc, rfl⟩, rest, hr⟩
    exact ⟨content, rest, placeholder?_eq_some_iff.2 ⟨hc, hr.symm⟩⟩
  · rintro ⟨content, rest, h⟩
    obtain ⟨hc, rfl⟩ := placeholder?_eq_some_iff.1 h
    exact opens_source hc rest

theorem not_opens_iff {s : List Char} : ¬ Opens s ↔ placeholder? s = none := by
  rw [opens_iff]
  cases h : placeholder? s with
  | none => simp
  | some r => simp [Prod.ext_iff]

theorem head_of_opens {s : List Char} (h : Opens s) : ∃ rest, s = '\x7b' :: rest := by
  obtain ⟨_, ⟨content, -, rfl⟩, rest, rfl⟩ := h
  exact ⟨_, source_placeholder content rest⟩

/-- A text has no two placeholders that begin at its start. -/
theorem source_append_injective {a b r t : List Char} (ha : IsContent a) (hb : IsContent b)
    (h : (Piece.placeholder a).source ++ r = (Piece.placeholder b).source ++ t) :
    a = b ∧ r = t := by
  have hr := placeholder?_source ha r
  rw [h, placeholder?_source hb t, Option.some.injEq, Prod.mk.injEq] at hr
  exact ⟨hr.1.symm, hr.2.symm⟩

open Text

@[simp]
theorem byteSize_nil : byteSize [] = 0 :=
  rfl

theorem foldl_byteSize (s : List Char) (n : Nat) :
    s.foldl (fun n c => n + c.utf8Size) n = n + byteSize s := by
  induction s generalizing n with
  | nil => rfl
  | cons c s ih =>
    unfold byteSize
    rw [List.foldl_cons, List.foldl_cons, ih, ih (0 + c.utf8Size)]
    omega

@[simp]
theorem byteSize_cons (c : Char) (s : List Char) : byteSize (c :: s) = c.utf8Size + byteSize s := by
  show s.foldl (fun n c => n + c.utf8Size) (0 + c.utf8Size) = _
  rw [foldl_byteSize, Nat.zero_add]

@[simp]
theorem byteSize_append (s t : List Char) : byteSize (s ++ t) = byteSize s + byteSize t := by
  induction s with
  | nil => rw [List.nil_append, byteSize_nil, Nat.zero_add]
  | cons c s ih => rw [List.cons_append, byteSize_cons, byteSize_cons, ih, Nat.add_assoc]

theorem byteSize_pos {s : List Char} (h : s ≠ []) : 0 < byteSize s := by
  cases s with
  | nil => exact absurd rfl h
  | cons c s =>
    have := c.utf8Size_pos
    rw [byteSize_cons]
    omega

theorem byteSize_source_pos (content : List Char) :
    0 < byteSize (Piece.placeholder content).source :=
  byteSize_pos nofun

/-- A text without the characters of its first `n` bytes. -/
def dropBytes (n : Nat) : List Char → List Char
  | [] => []
  | c :: s => if n = 0 then c :: s else dropBytes (n - c.utf8Size) s

/-- The characters of the first `n` bytes. -/
def takeBytes (n : Nat) : List Char → List Char
  | [] => []
  | c :: s => if n = 0 then [] else c :: takeBytes (n - c.utf8Size) s

/-- The characters from one byte up to another one. -/
def slice (start stop : Nat) (s : List Char) : List Char :=
  takeBytes (stop - start) (dropBytes start s)

theorem takeBytes_zero (s : List Char) : takeBytes 0 s = [] := by
  cases s with
  | nil => rfl
  | cons c s => exact if_pos rfl

theorem dropBytes_append (s t : List Char) : dropBytes (byteSize s) (s ++ t) = t := by
  induction s with
  | nil =>
    cases t with
    | nil => rfl
    | cons c t => exact if_pos rfl
  | cons c s ih =>
    have hpos := c.utf8Size_pos
    rw [List.cons_append, byteSize_cons, dropBytes, if_neg (by omega), Nat.add_sub_cancel_left, ih]

theorem takeBytes_append (s t : List Char) (n : Nat) :
    takeBytes (byteSize s + n) (s ++ t) = s ++ takeBytes n t := by
  induction s with
  | nil => rw [byteSize_nil, Nat.zero_add, List.nil_append, List.nil_append]
  | cons c s ih =>
    have hpos := c.utf8Size_pos
    have hsub : c.utf8Size + byteSize s + n - c.utf8Size = byteSize s + n := by omega
    rw [List.cons_append, byteSize_cons, takeBytes, if_neg (by omega), hsub, ih, List.cons_append]

theorem slice_append (before s after : List Char) :
    slice (byteSize before) (byteSize before + byteSize s) (before ++ (s ++ after)) = s := by
  have hs := takeBytes_append s after 0
  rw [Nat.add_zero, takeBytes_zero, List.append_nil] at hs
  rw [slice, dropBytes_append, Nat.add_sub_cancel_left, hs]

/-- `s` is cut into pieces from the left: in a text no placeholder begins, also none that goes on
behind it. -/
inductive Cuts : List Piece → List Char → Prop
  | nil : Cuts [] []
  | text {t s : List Char} {ps : List Piece} :
    (∀ a b, t = a ++ b → b ≠ [] → ¬ Opens (b ++ s)) → Cuts ps s → Cuts (.text t :: ps) (t ++ s)
  | placeholder {content s : List Char} {ps : List Piece} :
    IsContent content → Cuts ps s →
      Cuts (.placeholder content :: ps) ((Piece.placeholder content).source ++ s)

theorem addText_eq (seen : List Char) (done : List Piece) :
    (addText seen done).reverse =
      done.reverse ++ if seen = [] then [] else [.text seen.reverse] := by
  unfold addText
  cases seen with
  | nil => simp
  | cons c seen => simp

theorem Cuts.addText {seen s : List Char} {ps : List Piece} (hs : Cuts ps s)
    (hseen : ∀ a b, seen.reverse = a ++ b → b ≠ [] → ¬ Opens (b ++ s)) :
    Cuts ((if seen = [] then [] else [.text seen.reverse]) ++ ps) (seen.reverse ++ s) := by
  by_cases h : seen = []
  · rw [if_pos h, h]
    exact hs
  · rw [if_neg h]
    exact .text hseen hs

/-- The search goes on from a point before which no placeholder begins in the text `seen`. -/
theorem cuts_piecesFrom (seen : List Char) (done : List Piece) (s : List Char)
    (hseen : ∀ a b, seen.reverse = a ++ b → b ≠ [] → ¬ Opens (b ++ s)) :
    ∃ ps, piecesFrom seen done s = done.reverse ++ ps ∧ Cuts ps (seen.reverse ++ s) := by
  induction hn : s.length using Nat.strongRecOn generalizing seen done s with
  | ind n ih =>
    cases s with
    | nil =>
      refine ⟨_, ?_, Cuts.nil.addText hseen⟩
      rw [piecesFrom, addText_eq, List.append_nil]
    | cons c rest =>
      cases h : placeholder? (c :: rest) with
      | some found =>
        obtain ⟨content, after⟩ := found
        obtain ⟨hc, hs⟩ := placeholder?_eq_some_iff.1 h
        have hlen : after.length < n := by
          rw [← hn, hs, source_placeholder]
          simp only [List.length_cons, List.length_append]
          omega
        obtain ⟨ps, he, hps⟩ := ih _ hlen [] (.placeholder content :: Template.addText seen done)
          after (fun a b hab hb => absurd (List.append_eq_nil_iff.1 hab.symm).2 hb) rfl
        have hcut := Cuts.placeholder hc hps
        rw [List.reverse_nil, List.nil_append, ← hs] at hcut
        refine ⟨_, ?_, hcut.addText hseen⟩
        rw [piecesFrom, h]
        dsimp only
        rw [he, List.reverse_cons, addText_eq, List.append_assoc, List.append_assoc]
        rfl
      | none =>
        have hlen : rest.length < n := by
          rw [← hn, List.length_cons]
          omega
        have hnext : ∀ a b, (c :: seen).reverse = a ++ b → b ≠ [] → ¬ Opens (b ++ rest) := by
          intro a b hab hb
          -- what begins here either begins in `seen`, or at the character that was just passed
          obtain ⟨b, d, rfl⟩ := (List.eq_nil_or_concat b).resolve_left hb
          rw [List.concat_eq_append] at hab ⊢
          rw [List.reverse_cons, ← List.append_assoc] at hab
          obtain ⟨hseen', hd⟩ := List.append_inj' hab rfl
          obtain rfl : c = d := List.head_eq_of_cons_eq hd
          rw [List.append_assoc, List.singleton_append]
          cases b with
          | nil => exact not_opens_iff.2 h
          | cons d b => exact hseen a (d :: b) hseen' (List.cons_ne_nil _ _)
        obtain ⟨ps, he, hps⟩ := ih _ hlen (c :: seen) done rest hnext rfl
        refine ⟨ps, ?_, ?_⟩
        · rw [piecesFrom, h]
          exact he
        · rwa [List.reverse_cons, List.append_assoc, List.singleton_append] at hps

theorem cuts_pieces (s : List Char) : Cuts (pieces s) s := by
  obtain ⟨ps, he, hps⟩ := cuts_piecesFrom [] [] s
    (fun a b hab hb => absurd (List.append_eq_nil_iff.1 hab.symm).2 hb)
  rw [List.reverse_nil, List.nil_append] at he hps
  rw [pieces, he]
  exact hps

/-- Nothing is lost or added. -/
theorem Cuts.flatMap_source {ps : List Piece} {s : List Char} (h : Cuts ps s) :
    ps.flatMap Piece.source = s := by
  induction h with
  | nil => rfl
  | text _ _ ih => rw [List.flatMap_cons, ih, Piece.source]
  | placeholder _ _ ih => rw [List.flatMap_cons, ih]

theorem le_start_of_mem {i : Nat} {ps : List Piece} {span : Span} (h : span ∈ spansFrom i ps) :
    i ≤ span.start := by
  induction ps generalizing i with
  | nil => cases h
  | cons p ps ih =>
    cases p with
    | text t => exact Nat.le_trans (Nat.le_add_right _ _) (ih h)
    | placeholder content =>
      rcases List.mem_cons.1 h with rfl | h
      · exact Nat.le_refl i
      · exact Nat.le_trans (Nat.le_add_right _ _) (ih h)

/-- Spans stand in order and do not overlap. -/
theorem pairwise_spansFrom (i : Nat) (ps : List Piece) :
    (spansFrom i ps).Pairwise fun a b => a.stop ≤ b.start := by
  induction ps generalizing i with
  | nil => exact .nil
  | cons p ps ih =>
    cases p with
    | text t => exact ih _
    | placeholder content => exact .cons (fun _ h => le_start_of_mem h) (ih _)

/-- Where a span stands in a text that begins at byte `i`. -/
def Span.Covers (span : Span) (i : Nat) (s : List Char) : Prop :=
  ∃ before after, s = before ++ ((Piece.placeholder span.content).source ++ after) ∧
    span.start = i + byteSize before ∧
    span.stop = i + byteSize before + byteSize (Piece.placeholder span.content).source

theorem Span.Covers.append {span : Span} {i : Nat} {t s : List Char}
    (h : span.Covers (i + byteSize t) s) : span.Covers i (t ++ s) := by
  obtain ⟨before, after, rfl, hstart, hstop⟩ := h
  refine ⟨t ++ before, after, (List.append_assoc _ _ _).symm, ?_, ?_⟩
  · rw [hstart, byteSize_append, Nat.add_assoc]
  · rw [hstop, byteSize_append, Nat.add_assoc i]

theorem Cuts.covers {ps : List Piece} {s : List Char} (h : Cuts ps s) {i : Nat} {span : Span}
    (hspan : span ∈ spansFrom i ps) : IsContent span.content ∧ span.Covers i s := by
  induction h generalizing i with
  | nil => cases hspan
  | text _ _ ih =>
    obtain ⟨hc, hs⟩ := ih hspan
    exact ⟨hc, hs.append⟩
  | @placeholder content s ps hc _ ih =>
    rcases List.mem_cons.1 hspan with rfl | hspan
    · exact ⟨hc, [], s, rfl, rfl, rfl⟩
    · obtain ⟨hc, hs⟩ := ih hspan
      exact ⟨hc, hs.append⟩

/-- A placeholder that begins anywhere begins inside of a span. -/
theorem Cuts.exists_span_of_opens {ps : List Piece} {s : List Char} (h : Cuts ps s) {i : Nat}
    {before rest : List Char} (hs : s = before ++ rest) (ho : Opens rest) :
    ∃ span ∈ spansFrom i ps, span.start ≤ i + byteSize before ∧ i + byteSize before < span.stop := by
  induction h generalizing i before with
  | nil =>
    obtain ⟨-, rfl⟩ := List.append_eq_nil_iff.1 hs.symm
    obtain ⟨_, h⟩ := head_of_opens ho
    cases h
  | @text t s ps ht _ ih =>
    -- the placeholder begins in the text, which is impossible, or behind it
    rcases List.append_eq_append_iff.1 hs with ⟨a, rfl, hr⟩ | ⟨b, rfl, rfl⟩
    · obtain ⟨span, hspan, hspans⟩ := ih (i := i + byteSize t) hr
      exact ⟨span, hspan, by rwa [byteSize_append, ← Nat.add_assoc]⟩
    · by_cases hb : b = []
      · subst hb
        obtain ⟨span, hspan, hspans⟩ := ih (i := i + byteSize (before ++ [])) (List.nil_append _).symm
        refine ⟨span, hspan, ?_⟩
        rwa [List.append_nil, byteSize_nil, Nat.add_zero] at hspans
      · exact absurd ho (ht before b rfl hb)
  | @placeholder content s ps hc _ ih =>
    have hpos := byteSize_source_pos content
    rcases List.append_eq_append_iff.1 hs with ⟨a, rfl, hr⟩ | ⟨b, hb, rfl⟩
    · obtain ⟨span, hspan, hspans⟩ :=
        ih (i := i + byteSize (Piece.placeholder content).source) hr
      exact ⟨span, List.mem_cons_of_mem _ hspan, by rwa [byteSize_append, ← Nat.add_assoc]⟩
    · by_cases hn : b = []
      · subst hn
        rw [List.append_nil] at hb
        obtain ⟨span, hspan, hspans⟩ :=
          ih (i := i + byteSize (Piece.placeholder content).source) (List.nil_append _).symm
        refine ⟨span, List.mem_cons_of_mem _ hspan, ?_⟩
        rwa [byteSize_nil, Nat.add_zero, hb] at hspans
      · refine ⟨_, List.mem_cons_self, Nat.le_add_right _ _, ?_⟩
        have hsize := congrArg byteSize hb
        have hb := byteSize_pos hn
        rw [byteSize_append] at hsize
        dsimp only
        omega

theorem exists_span_of_mem {i : Nat} {ps : List Piece} {content : List Char}
    (h : .placeholder content ∈ ps) : ∃ span ∈ spansFrom i ps, span.content = content := by
  induction ps generalizing i with
  | nil => cases h
  | cons p ps ih =>
    rcases List.mem_cons.1 h with rfl | hps
    · exact ⟨_, List.mem_cons_self, rfl⟩
    · cases p with
      | text t => exact ih hps
      | placeholder other =>
        obtain ⟨span, hspan, he⟩ := ih hps
        exact ⟨span, List.mem_cons_of_mem _ hspan, he⟩

/-- A text from byte `i` on, with values in the places of spans and all else as it is. -/
def fill (value : Span → String) (s : List Char) (i : Nat) : List Span → String
  | [] => String.ofList (dropBytes i s)
  | span :: spans =>
    String.ofList (slice i span.start s) ++ value span ++ fill value s span.stop spans

/-- A stretch without spans is kept. -/
theorem fill_text (value : Span → String) (before t s : List Char) {spans : List Span}
    (h : ∀ span ∈ spans, byteSize before + byteSize t ≤ span.start) :
    fill value (before ++ (t ++ s)) (byteSize before) spans =
      String.ofList t ++ fill value (before ++ (t ++ s)) (byteSize before + byteSize t) spans := by
  have hdrop : dropBytes (byteSize before + byteSize t) (before ++ (t ++ s)) = s := by
    rw [← byteSize_append, ← List.append_assoc, dropBytes_append]
  cases spans with
  | nil => rw [fill, fill, dropBytes_append, hdrop, String.ofList_append]
  | cons span spans =>
    have hstart := h span List.mem_cons_self
    have hsub : span.start - byteSize before =
        byteSize t + (span.start - (byteSize before + byteSize t)) := by omega
    rw [fill, fill, slice, slice, dropBytes_append, hdrop, hsub, takeBytes_append,
      String.ofList_append, String.append_assoc, String.append_assoc, String.append_assoc]

/-- Filling in by bytes puts the texts of the pieces together. -/
theorem Cuts.fill_eq {ps : List Piece} {s : List Char} (h : Cuts ps s) (value : Span → String)
    (text : Piece → String) (htext : ∀ t, text (.text t) = String.ofList t) (before : List Char)
    (hvalue : ∀ span ∈ spansFrom (byteSize before) ps,
      value span = text (.placeholder span.content)) :
    fill value (before ++ s) (byteSize before) (spansFrom (byteSize before) ps) =
      String.join (ps.map text) := by
  induction h generalizing before with
  | nil =>
    show String.ofList (dropBytes _ _) = _
    rw [dropBytes_append]
    rfl
  | @text t s ps _ _ ih =>
    rw [spansFrom] at hvalue ⊢
    rw [fill_text value before t s fun _ hspan => le_start_of_mem hspan]
    rw [← byteSize_append] at hvalue ⊢
    rw [← List.append_assoc, ih (before ++ t) hvalue, List.map_cons, String.join_cons, htext]
  | @placeholder content s ps _ _ ih =>
    rw [spansFrom] at hvalue ⊢
    obtain ⟨hhead, hvalue⟩ := List.forall_mem_cons.1 hvalue
    have hslice := slice_append before [] ((Piece.placeholder content).source ++ s)
    rw [byteSize_nil, Nat.add_zero, List.nil_append] at hslice
    rw [← byteSize_append] at hvalue hhead ⊢
    rw [fill, hslice, hhead, ← List.append_assoc, ih (before ++ _) hvalue, List.map_cons,
      String.join_cons]
    rfl

end Workflow.Template
