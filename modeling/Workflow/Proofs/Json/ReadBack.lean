import Workflow.Json.Reread
import Workflow.Proofs.Fields
import Workflow.Proofs.Json.Lexed
import Workflow.Proofs.Json.Reader

/-! JSON text read back. The reader finds a value at the start of its text, compact or indented,
whatever follows it, so that both texts of a value are read as the value. -/
namespace Workflow.Json

open Number Text

/-- The reader finds the value at the start of the text, behind white space or not, whatever
follows, if no number goes on with it. -/
def IsText (room : Nat) (v : Json) (s : List Char) : Prop :=
  ∀ g, Gap g → ∀ rest, EndsNumeral rest → Finds (value? room (g ++ (s ++ rest))) v rest

/-- Behind one part, the text goes on with the others, up to the closing character. -/
def IsTail {α : Type} (close : Char) (parts? : (s : List Char) → Read (List α) s) (parts : List α)
    (s : List Char) : Prop :=
  ∀ rest, GoesOn close parts? (s ++ close :: rest) parts rest

/-- No number goes on with white space, a comma or a closing character. -/
theorem GoesOn.endsNumeral {α : Type} {close : Char} {parts? : (s : List Char) → Read (List α) s}
    {r rest : List Char} {parts : List α} (h : GoesOn close parts? r parts rest)
    (hclose : close = ']' ∨ close = '\x7d') : EndsNumeral r := by
  have hblank : ∀ c, isGap c = true → isDigit c = false ∧ c ≠ '.' ∧ c ≠ 'e' ∧ c ≠ 'E' := by
    intro c hc
    simp only [isGap, Bool.or_eq_true, decide_eq_true_eq] at hc
    rcases hc with ((rfl | rfl) | rfl) | rfl <;> decide
  have hmark : ∀ c, c = ',' ∨ c = ']' ∨ c = '\x7d' →
      isDigit c = false ∧ c ≠ '.' ∧ c ≠ 'e' ∧ c ≠ 'E' := by
    rintro c (rfl | rfl | rfl) <;> decide
  have hskip : ∃ c t, skip r = c :: t ∧ (c = ',' ∨ c = ']' ∨ c = '\x7d') := by
    cases h with
    | last h => exact ⟨_, _, h, Or.inr hclose⟩
    | more h _ => exact ⟨_, _, h, Or.inl rfl⟩
  obtain ⟨c, t, hs, hc⟩ := hskip
  -- the first character is white space, or the one that is left when white space is skipped
  intro d hd
  cases r with
  | nil => cases hd
  | cons d' r =>
    obtain rfl := Option.some.inj hd
    by_cases hg : isGap d' = true
    · exact hblank d' hg
    · unfold skip at hs
      rw [List.dropWhile_cons_of_neg hg] at hs
      obtain ⟨rfl, -⟩ := List.cons.inj hs
      exact hmark d' hc

section

variable {room : Nat} {g s sv : List Char} {v : Json}

theorem IsText.of_step {c : Char} (hc : isGap c = false)
    (h : ∀ rest, EndsNumeral rest → Step room c (s ++ rest) v rest) : IsText room v (c :: s) :=
  fun _ hg rest hr => finds_of_step (skip_gap hg hc _) (h rest hr)

theorem isText_null : IsText room .null "null".toList :=
  .of_step (by decide) fun _ _ => .keyword rfl

theorem isText_bool (b : Bool) : IsText room (.bool b) (if b then "true" else "false").toList := by
  cases b with
  | true => exact .of_step (by decide) fun _ _ => .keyword rfl
  | false => exact .of_step (by decide) fun _ _ => .keyword rfl

theorem stringBody_quoted (key : String) (rest : List Char) :
    stringBody [] (key.toList.flatMap escapeChar ++ '\x22' :: rest) = some (key.toList, rest) :=
  stringBody_escaped key.toList [] rest

theorem isText_string (x : String) : IsText room (.string x) (quotedChars x) := by
  refine .of_step (by decide) fun rest _ => ?_
  have h : Step room '\x22' _ (.string (String.ofList x.toList)) rest :=
    .string (stringBody_quoted x rest)
  rw [String.ofList_toList] at h
  rwa [List.append_assoc]

theorem isText_number {n : Numeral} (h : readNumeral? n.text.toList = some (n, [])) :
    IsText room (.number n) n.text.toList := by
  revert h
  cases n.text.toList with
  | nil => exact nofun
  | cons c s =>
    intro h
    have hc : isGap c = false := by
      have hstart := start_of_readNumeral? h
      simp only [isGap, Bool.or_eq_false_iff, decide_eq_false_iff_not]
      refine ⟨⟨⟨?_, ?_⟩, ?_⟩, ?_⟩ <;> (rintro rfl; exact absurd hstart (by decide))
    exact .of_step hc fun rest hr => .numeral (readNumeral?_append hr h)

theorem isTail_nil {α : Type} {close : Char} {parts? : (s : List Char) → Read (List α) s}
    (hclose : isGap close = false) (hg : Gap g) : IsTail close parts? [] g :=
  fun rest => .last (skip_gap hg hclose rest)

theorem isText_noItems : IsText (room + 1) (.array []) "[]".toList :=
  .of_step (by decide) fun _ _ => .noItems rfl

theorem isText_noEntries : IsText (room + 1) (.object []) "\x7b\x7d".toList :=
  .of_step (by decide) fun _ _ => .noEntries rfl

theorem IsText.finds_items {items : List Json} (hv : IsText room v sv) (hg : Gap g)
    (hs : IsTail ']' (items? room) items s) (rest : List Char) :
    Finds (items? room (g ++ (sv ++ (s ++ ']' :: rest)))) (v :: items) rest :=
  Json.finds_items (hv g hg _ ((hs rest).endsNumeral (Or.inl rfl))) (hs rest)

theorem IsTail.cons_item {items : List Json} (hs : IsTail ']' (items? room) items s)
    (hv : IsText room v sv) (hg : Gap g) :
    IsTail ']' (items? room) (v :: items) (',' :: (g ++ (sv ++ s))) := by
  intro rest
  have htext : (g ++ (sv ++ s)).append (']' :: rest) = g ++ (sv ++ (s ++ ']' :: rest)) := by
    simp only [List.append_eq, List.append_assoc]
  refine .more rfl ?_
  rw [htext]
  exact hv.finds_items hg hs rest

theorem IsText.array {items : List Json} (hv : IsText room v sv) (hg : Gap g)
    (hs : IsTail ']' (items? room) items s) :
    IsText (room + 1) (.array (v :: items)) ('[' :: (g ++ (sv ++ (s ++ [']'])))) := by
  refine .of_step (by decide) fun rest _ => .items ?_
  have htext : g ++ (sv ++ (s ++ [']'])) ++ rest = g ++ (sv ++ (s ++ ']' :: rest)) := by
    simp only [List.append_assoc, List.cons_append, List.nil_append]
  rw [htext]
  exact hv.finds_items hg hs rest

theorem IsText.finds_entries {key : String} {entries : List (String × Json)} {c : List Char}
    (hv : IsText room v sv) (hg : Gap g) (hc : Gap c)
    (hs : IsTail '\x7d' (entries? room) entries s) (rest : List Char) :
    Finds (entries? room (g ++ (quotedChars key ++ ':' :: (c ++ (sv ++ (s ++ '\x7d' :: rest))))))
      ((key, v) :: entries) rest := by
  have hquote : skip (g ++ (quotedChars key ++ ':' :: (c ++ (sv ++ (s ++ '\x7d' :: rest))))) =
      '\x22' :: (key.toList.flatMap escapeChar ++
        '\x22' :: ':' :: (c ++ (sv ++ (s ++ '\x7d' :: rest)))) := by
    unfold quotedChars
    rw [List.cons_append, skip_gap hg (by decide), List.append_assoc]
    rfl
  have h := Json.finds_entries hquote (stringBody_quoted key _) rfl
    (hv c hc _ ((hs rest).endsNumeral (Or.inr rfl))) (hs rest)
  rwa [String.ofList_toList] at h

theorem IsTail.cons_entry {key : String} {entries : List (String × Json)} {c : List Char}
    (hs : IsTail '\x7d' (entries? room) entries s) (hv : IsText room v sv) (hg : Gap g)
    (hc : Gap c) : IsTail '\x7d' (entries? room) ((key, v) :: entries)
      (',' :: (g ++ (quotedChars key ++ ':' :: (c ++ (sv ++ s))))) := by
  intro rest
  have htext : (g ++ (quotedChars key ++ ':' :: (c ++ (sv ++ s)))).append ('\x7d' :: rest) =
      g ++ (quotedChars key ++ ':' :: (c ++ (sv ++ (s ++ '\x7d' :: rest)))) := by
    simp only [List.append_eq, List.append_assoc, List.cons_append]
  refine .more rfl ?_
  rw [htext]
  exact hv.finds_entries hg hc hs rest

theorem IsText.object {key : String} {entries : Fields Json} {c : List Char}
    (hv : IsText room v sv) (hg : Gap g) (hc : Gap c)
    (hs : IsTail '\x7d' (entries? room) entries s) (hsorted : Fields.Sorted ((key, v) :: entries)) :
    IsText (room + 1) (.object ((key, v) :: entries))
      ('\x7b' :: (g ++ (quotedChars key ++ ':' :: (c ++ (sv ++ (s ++ ['\x7d'])))))) := by
  refine .of_step (by decide) fun rest _ => ?_
  have htext : g ++ (quotedChars key ++ ':' :: (c ++ (sv ++ (s ++ ['\x7d'])))) ++ rest =
      g ++ (quotedChars key ++ ':' :: (c ++ (sv ++ (s ++ '\x7d' :: rest)))) := by
    simp only [List.append_assoc, List.cons_append, List.nil_append]
  have hentries : Finds (entries? room _) ((key, v) :: entries) rest :=
    hv.finds_entries hg hc hs rest
  have h := Step.entries hentries
  unfold ofEntries at h
  rw [Fields.ofList_of_sorted hsorted] at h
  rwa [htext]

end

mutual

/-- The entries of every object stand in the order of their keys. -/
def Ordered : Json → Prop
  | .array items => OrderedItems items
  | .object entries => Fields.Sorted entries ∧ OrderedEntries entries
  | .null | .bool _ | .number _ | .string _ => True
termination_by structural v => v

def OrderedItems : List Json → Prop
  | [] => True
  | v :: rest => v.Ordered ∧ OrderedItems rest
termination_by structural items => items

def OrderedEntries : List (String × Json) → Prop
  | [] => True
  | (_, v) :: rest => v.Ordered ∧ OrderedEntries rest
termination_by structural entries => entries

end

mutual

/-- The numbers in a value, from left to right. -/
def numerals : Json → List Numeral
  | .number n => [n]
  | .array items => itemNumerals items
  | .object entries => entryNumerals entries
  | .null | .bool _ | .string _ => []
termination_by structural v => v

def itemNumerals : List Json → List Numeral
  | [] => []
  | v :: rest => v.numerals ++ itemNumerals rest
termination_by structural items => items

def entryNumerals : List (String × Json) → List Numeral
  | [] => []
  | (_, v) :: rest => v.numerals ++ entryNumerals rest
termination_by structural entries => entries

end

/-- The number is read from its text. -/
def IsRead (n : Numeral) : Prop :=
  readNumeral? n.text.toList = some (n, [])

theorem gap_nil : Gap [] :=
  fun _ h => by contradiction

theorem gap_blank : Gap [' '] := by
  intro c hc
  obtain rfl := List.mem_singleton.1 hc
  rfl

mutual

/-- The compact text of a value. -/
theorem isText_chars : ∀ {room : Nat} {v : Json}, v.Ordered → v.nesting ≤ room →
    (∀ n ∈ v.numerals, IsRead n) → IsText room v v.chars
  | _, .null, _, _, _ => isText_null
  | _, .bool b, _, _, _ => isText_bool b
  | _, .number n, _, _, hn => isText_number (hn n List.mem_cons_self)
  | _, .string s, _, _, _ => isText_string s
  | 0, .array items, _, hroom, _ => absurd hroom (Nat.not_succ_le_zero _)
  | 0, .object entries, _, hroom, _ => absurd hroom (Nat.not_succ_le_zero _)
  | room + 1, .array [], _, _, _ => isText_noItems
  | room + 1, .object [], _, _, _ => isText_noEntries
  | room + 1, .array (v :: rest), ⟨hv, hrest⟩, hroom, hn => by
    obtain ⟨hnv, hnrest⟩ := List.forall_mem_append.1 hn
    obtain ⟨hroomv, hroomrest⟩ := Nat.max_le.1 (Nat.le_of_succ_le_succ hroom)
    have h := (isText_chars hv hroomv hnv).array gap_nil (isTail_itemChars hrest hroomrest hnrest)
    show IsText _ _ ('[' :: (([] ++ (v.chars ++ itemChars false rest)) ++ [']']))
    rwa [List.nil_append, List.append_assoc]
  | room + 1, .object ((key, v) :: rest), ⟨hs, hv, hrest⟩, hroom, hn => by
    obtain ⟨hnv, hnrest⟩ := List.forall_mem_append.1 hn
    obtain ⟨hroomv, hroomrest⟩ := Nat.max_le.1 (Nat.le_of_succ_le_succ hroom)
    have h := (isText_chars hv hroomv hnv).object gap_nil gap_nil
      (isTail_entryChars hrest hroomrest hnrest) hs
    show IsText _ _ ('\x7b' ::
      (([] ++ (quotedChars key ++ ':' :: (v.chars ++ entryChars false rest))) ++ ['\x7d']))
    rw [List.nil_append, List.append_assoc, List.cons_append, List.append_assoc]
    exact h
termination_by structural _ v => v

theorem isTail_itemChars : ∀ {room : Nat} {items : List Json}, OrderedItems items →
    nestingList items ≤ room → (∀ n ∈ itemNumerals items, IsRead n) →
      IsTail ']' (items? room) items (itemChars false items)
  | _, [], _, _, _ => isTail_nil (by decide) gap_nil
  | room, v :: rest, ⟨hv, hrest⟩, hroom, hn => by
    obtain ⟨hnv, hnrest⟩ := List.forall_mem_append.1 hn
    obtain ⟨hroomv, hroomrest⟩ := Nat.max_le.1 hroom
    exact (isTail_itemChars hrest hroomrest hnrest).cons_item (isText_chars hv hroomv hnv) gap_nil
termination_by structural _ items => items

theorem isTail_entryChars : ∀ {room : Nat} {entries : List (String × Json)},
    OrderedEntries entries → nestingEntries entries ≤ room →
      (∀ n ∈ entryNumerals entries, IsRead n) →
      IsTail '\x7d' (entries? room) entries (entryChars false entries)
  | _, [], _, _, _ => isTail_nil (by decide) gap_nil
  | room, (key, v) :: rest, ⟨hv, hrest⟩, hroom, hn => by
    obtain ⟨hnv, hnrest⟩ := List.forall_mem_append.1 hn
    obtain ⟨hroomv, hroomrest⟩ := Nat.max_le.1 hroom
    exact (isTail_entryChars hrest hroomrest hnrest).cons_entry (isText_chars hv hroomv hnv)
      gap_nil gap_nil
termination_by structural _ entries => entries

end

/-- A line break and the indentation behind it. -/
def lineChars (indent : String) (level : Nat) : List Char :=
  '\n' :: (List.replicate level indent.toList).flatten

theorem toList_newLine (indent : String) (level : Nat) (out : String) :
    (newLine indent level out).toList = out.toList ++ lineChars indent level := by
  have hindent : ∀ (level : Nat) (out : String),
      ((List.replicate level indent).foldl (· ++ ·) out).toList =
        out.toList ++ (List.replicate level indent.toList).flatten := by
    intro level
    induction level with
    | zero => exact fun out => (List.append_nil _).symm
    | succ level ih =>
      intro out
      rw [List.replicate_succ, List.foldl_cons, ih, String.toList_append, List.replicate_succ,
        List.flatten_cons, List.append_assoc]
  unfold newLine lineChars
  rw [hindent, String.toList_push, List.append_assoc]
  rfl

section

variable {indent : String} (hi : Gap indent.toList)
include hi

theorem gap_lineChars (level : Nat) : Gap (lineChars indent level) := by
  intro c hc
  rcases List.mem_cons.1 hc with rfl | hc
  · rfl
  · obtain ⟨s, hs, hc⟩ := List.mem_flatten.1 hc
    rw [List.eq_of_mem_replicate hs] at hc
    exact hi c hc

mutual

/-- The indented text of a value. -/
theorem exists_writeIndented : ∀ {room : Nat} {v : Json}, v.Ordered → v.nesting ≤ room →
    (∀ n ∈ v.numerals, IsRead n) → ∀ (level : Nat) (out : String),
      ∃ s, (writeIndented indent level out v).toList = out.toList ++ s ∧ IsText room v s
  | _, .null, _, _, _, _, _ => ⟨_, String.toList_append, isText_null⟩
  | _, .bool b, _, _, _, _, _ => ⟨_, String.toList_append, isText_bool b⟩
  | _, .number n, _, _, hn, _, _ =>
    ⟨_, String.toList_append, isText_number (hn n List.mem_cons_self)⟩
  | _, .string s, _, _, _, _, out => ⟨_, toList_writeString out s, isText_string s⟩
  | 0, .array items, _, hroom, _, _, _ => absurd hroom (Nat.not_succ_le_zero _)
  | 0, .object entries, _, hroom, _, _, _ => absurd hroom (Nat.not_succ_le_zero _)
  | room + 1, .array [], _, _, _, _, _ => ⟨_, String.toList_append, isText_noItems⟩
  | room + 1, .object [], _, _, _, _, out => by
    refine ⟨_, ?_, isText_noEntries⟩
    rw [writeIndented, String.toList_push, String.toList_push, List.append_assoc]
    rfl
  | room + 1, .array (v :: rest), ⟨hv, hrest⟩, hroom, hn, level, out => by
    obtain ⟨hnv, hnrest⟩ := List.forall_mem_append.1 hn
    obtain ⟨hroomv, hroomrest⟩ := Nat.max_le.1 (Nat.le_of_succ_le_succ hroom)
    obtain ⟨sv, hsv, htv⟩ := exists_writeIndented hv hroomv hnv (level + 1)
      (newLine indent (level + 1) (out.push '['))
    obtain ⟨s, hs, ht⟩ := exists_writeIndentedItems hrest hroomrest hnrest (level + 1)
      (writeIndented indent (level + 1) (newLine indent (level + 1) (out.push '[')) v)
    refine ⟨_, ?_, htv.array (gap_lineChars hi (level + 1)) (ht _ (gap_lineChars hi level))⟩
    rw [writeIndented, String.toList_push, toList_newLine, writeIndentedItems, if_pos rfl, hs, hsv,
      toList_newLine, String.toList_push]
    · simp only [List.append_assoc, List.cons_append, List.nil_append]
    · exact nofun
  | room + 1, .object ((key, v) :: rest), ⟨hsorted, hv, hrest⟩, hroom, hn, level, out => by
    obtain ⟨hnv, hnrest⟩ := List.forall_mem_append.1 hn
    obtain ⟨hroomv, hroomrest⟩ := Nat.max_le.1 (Nat.le_of_succ_le_succ hroom)
    let start := writeString (newLine indent (level + 1) (out.push '\x7b')) key ++ ": "
    obtain ⟨sv, hsv, htv⟩ := exists_writeIndented hv hroomv hnv (level + 1) start
    obtain ⟨s, hs, ht⟩ := exists_writeIndentedEntries hrest hroomrest hnrest (level + 1)
      (writeIndented indent (level + 1) start v)
    refine ⟨_, ?_, htv.object (gap_lineChars hi (level + 1)) gap_blank
      (ht _ (gap_lineChars hi level)) hsorted⟩
    rw [writeIndented, String.toList_push, toList_newLine, writeIndentedEntries, if_pos rfl, hs,
      hsv, String.toList_append, toList_writeString, toList_newLine, String.toList_push]
    · simp only [List.append_assoc, List.cons_append, List.nil_append]
      rfl
    · exact nofun
termination_by structural _ v => v

theorem exists_writeIndentedItems : ∀ {room : Nat} {items : List Json}, OrderedItems items →
    nestingList items ≤ room → (∀ n ∈ itemNumerals items, IsRead n) →
      ∀ (level : Nat) (out : String), ∃ s,
        (writeIndentedItems indent level out false items).toList = out.toList ++ s ∧
          ∀ g, Gap g → IsTail ']' (items? room) items (s ++ g)
  | _, [], _, _, _, _, _ => ⟨[], (List.append_nil _).symm, fun _ hg => isTail_nil (by decide) hg⟩
  | room, v :: rest, ⟨hv, hrest⟩, hroom, hn, level, out => by
    obtain ⟨hnv, hnrest⟩ := List.forall_mem_append.1 hn
    obtain ⟨hroomv, hroomrest⟩ := Nat.max_le.1 hroom
    obtain ⟨sv, hsv, htv⟩ := exists_writeIndented hv hroomv hnv level
      (newLine indent level (out.push ','))
    obtain ⟨s, hs, ht⟩ := exists_writeIndentedItems hrest hroomrest hnrest level
      (writeIndented indent level (newLine indent level (out.push ',')) v)
    refine ⟨',' :: (lineChars indent level ++ (sv ++ s)), ?_, fun g hg => ?_⟩
    · rw [writeIndentedItems, if_neg (by decide), hs, hsv, toList_newLine, String.toList_push]
      simp only [List.append_assoc, List.cons_append, List.nil_append]
    · have h := (ht g hg).cons_item htv (gap_lineChars hi level)
      simpa only [List.append_assoc, List.cons_append] using h
termination_by structural _ items => items

theorem exists_writeIndentedEntries : ∀ {room : Nat} {entries : List (String × Json)},
    OrderedEntries entries → nestingEntries entries ≤ room →
      (∀ n ∈ entryNumerals entries, IsRead n) → ∀ (level : Nat) (out : String), ∃ s,
        (writeIndentedEntries indent level out false entries).toList = out.toList ++ s ∧
          ∀ g, Gap g → IsTail '\x7d' (entries? room) entries (s ++ g)
  | _, [], _, _, _, _, _ => ⟨[], (List.append_nil _).symm, fun _ hg => isTail_nil (by decide) hg⟩
  | room, (key, v) :: rest, ⟨hv, hrest⟩, hroom, hn, level, out => by
    obtain ⟨hnv, hnrest⟩ := List.forall_mem_append.1 hn
    obtain ⟨hroomv, hroomrest⟩ := Nat.max_le.1 hroom
    let start := writeString (newLine indent level (out.push ',')) key ++ ": "
    obtain ⟨sv, hsv, htv⟩ := exists_writeIndented hv hroomv hnv level start
    obtain ⟨s, hs, ht⟩ := exists_writeIndentedEntries hrest hroomrest hnrest level
      (writeIndented indent level start v)
    refine ⟨',' :: (lineChars indent level ++ (quotedChars key ++ ':' :: ([' '] ++ (sv ++ s)))), ?_,
      fun g hg => ?_⟩
    · rw [writeIndentedEntries, if_neg (by decide), hs, hsv, String.toList_append,
        toList_writeString, toList_newLine, String.toList_push]
      simp only [List.append_assoc, List.cons_append, List.nil_append]
      rfl
    · have h : IsTail '\x7d' (entries? room) ((key, v) :: rest) _ :=
        (ht g hg).cons_entry htv (gap_lineChars hi level) gap_blank
      simpa only [List.append_assoc, List.cons_append] using h
termination_by structural _ entries => entries

end

end

theorem parse?_of_isText {v : Json} {s : List Char} (h : IsText maxNesting v s) {text : String}
    (ht : text.toList = s) : parse? text = some v := by
  have hfound := h [] gap_nil [] fun c hc => by contradiction
  rw [List.nil_append, List.append_nil, ← ht] at hfound
  obtain ⟨_, hfound⟩ := hfound.eq_some
  unfold parse?
  rw [hfound]
  rfl

section

variable {v : Json} (ho : v.Ordered) (hroom : v.nesting ≤ maxNesting)
  (hn : ∀ n ∈ v.numerals, IsRead n)
include ho hroom hn

/-- The compact text of a value is read as the value. -/
theorem parse?_compact : parse? v.compact = some v :=
  parse?_of_isText (isText_chars ho hroom hn) (toList_write v "")

/-- So is its text on lines of their own. -/
theorem parse?_pretty {indent : String} (hi : Gap indent.toList) :
    parse? (v.pretty indent) = some v := by
  obtain ⟨s, hs, ht⟩ := exists_writeIndented hi ho hroom hn 0 ""
  exact parse?_of_isText ht hs

end

/-- Every number of the value is read back as itself. Whole numbers are, doubles need not be. -/
def ReadsBack (v : Json) : Prop :=
  ∀ n ∈ v.numerals, n.reread? = some n

mutual

theorem reread?_of_numerals : ∀ {room : Nat} {v : Json}, v.nesting ≤ room →
    (∀ n ∈ v.numerals, n.reread? = some n) → v.reread? room = some v
  | _, .null, _, _ | _, .bool _, _, _ | _, .string _, _, _ => rfl
  | _, .number n, _, hn => congrArg (Option.map Json.number) (hn n List.mem_cons_self)
  | 0, .array _, hroom, _ => absurd hroom (Nat.not_succ_le_zero _)
  | 0, .object _, hroom, _ => absurd hroom (Nat.not_succ_le_zero _)
  | _ + 1, .array _, hroom, hn =>
    congrArg (Option.map Json.array)
      (rereadItems?_of_numerals (Nat.le_of_succ_le_succ hroom) hn)
  | _ + 1, .object _, hroom, hn =>
    congrArg (Option.map Json.object)
      (rereadEntries?_of_numerals (Nat.le_of_succ_le_succ hroom) hn)
termination_by structural _ v => v

theorem rereadItems?_of_numerals : ∀ {room : Nat} {items : List Json}, nestingList items ≤ room →
    (∀ n ∈ itemNumerals items, n.reread? = some n) → rereadItems? room items = some items
  | _, [], _, _ => rfl
  | room, v :: rest, hroom, hn => by
    obtain ⟨hnv, hnrest⟩ := List.forall_mem_append.1 hn
    obtain ⟨hroomv, hroomrest⟩ := Nat.max_le.1 hroom
    rw [rereadItems?, reread?_of_numerals hroomv hnv, rereadItems?_of_numerals hroomrest hnrest]
    rfl
termination_by structural _ items => items

theorem rereadEntries?_of_numerals : ∀ {room : Nat} {entries : List (String × Json)},
    nestingEntries entries ≤ room → (∀ n ∈ entryNumerals entries, n.reread? = some n) →
      rereadEntries? room entries = some entries
  | _, [], _, _ => rfl
  | room, (key, v) :: rest, hroom, hn => by
    obtain ⟨hnv, hnrest⟩ := List.forall_mem_append.1 hn
    obtain ⟨hroomv, hroomrest⟩ := Nat.max_le.1 hroom
    rw [rereadEntries?, reread?_of_numerals hroomv hnv,
      rereadEntries?_of_numerals hroomrest hnrest]
    rfl
termination_by structural _ entries => entries

end

/-- A double that is read back as itself is read from its text. -/
theorem isRead_of_reread? {x : Float} (h : (Numeral.double x).reread? = some (.double x)) :
    IsRead (.double x) := by
  unfold Numeral.reread? at h
  dsimp only at h
  split at h
  · rename_i hread
    rw [Option.some.inj h] at hread
    exact hread
  · contradiction

end Workflow.Json
