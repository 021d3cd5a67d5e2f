import Workflow.Proofs.Json.Nesting
import Workflow.Proofs.Json.ReadBack
import Workflow.Proofs.Number.Whole

/-! Plain data whose numbers went through doubles: only its numbers are rewritten, safe whole
numbers are kept, and doing it again changes nothing. -/
namespace Workflow

open Eval Eval.Value Number

namespace Json

/-- The rewriting keeps everything but the numbers, and safe whole numbers too, and is done once and
for all. -/
structure IsNorm (norm : Json → Json) : Prop where
  null : norm .null = .null
  bool : ∀ b, norm (.bool b) = .bool b
  string : ∀ s, norm (.string s) = .string s
  array : ∀ items, norm (.array items) = .array (items.map norm)
  object : ∀ entries, norm (.object entries) = .object (entries.map fun e => (e.1, norm e.2))
  number : ∀ n, norm (.number n) = numberToJson n.toDouble
  safe : ∀ n : Int, n.natAbs ≤ maxSafe → norm (.ofInt n) = .ofInt n
  idem : ∀ v, norm (norm v) = norm v

theorem throughDoublesItems_eq_map (items : List Json) :
    throughDoublesItems items = items.map throughDoubles := by
  induction items with
  | nil => rfl
  | cons v rest ih => exact congrArg (v.throughDoubles :: ·) ih

theorem throughDoublesEntries_eq_map (entries : List (String × Json)) :
    throughDoublesEntries entries = entries.map fun e => (e.1, e.2.throughDoubles) := by
  induction entries with
  | nil => rfl
  | cons e rest ih => exact congrArg ((e.1, e.2.throughDoubles) :: ·) ih

theorem ofNat_eq_ofDecimal {n : Nat} (hn : n ≤ maxSafe) : Float.ofNat n = ofDecimal n 0 := by
  rcases Nat.eq_zero_or_pos n with rfl | hp
  · rfl
  · rw [ofNat_eq hp (Nat.lt_succ_of_le hn), ofDecimal_eq hp (Nat.lt_succ_of_le hn)]

theorem throughDoubles_ofInt {n : Int} (hn : n.natAbs ≤ maxSafe) :
    (ofInt n).throughDoubles = .ofInt n := by
  show numberToJson (if n < 0 then -Float.ofNat n.natAbs else Float.ofNat n.natAbs) = _
  rw [ofNat_eq_ofDecimal hn]
  split
  · rw [numberToJson_neg_ofDecimal (by omega) hn, show -(n.natAbs : Int) = n by omega]
  · rw [numberToJson_ofDecimal hn, show (n.natAbs : Int) = n by omega]

/-- A double is written as a safe whole number, as itself, or not at all. -/
theorem numberToJson_cases (x : Float) :
    (∃ n : Int, n.natAbs ≤ maxSafe ∧ numberToJson x = .ofInt n) ∨
      numberToJson x = .number (.double x) ∨ numberToJson x = .null := by
  have hsigned : ∀ negative n, (signed negative n).natAbs = n := by
    intro negative n
    cases negative with
    | true => exact Int.natAbs_neg n
    | false => rfl
  unfold numberToJson
  split
  · rename_i negative m e _
    split
    · rename_i n _
      -- without a fraction: a whole number, if it is safe
      split
      · rename_i hn
        exact Or.inl ⟨signed negative n, by rwa [hsigned], rfl⟩
      · exact Or.inr (Or.inl rfl)
    · exact Or.inr (Or.inl rfl)
  -- an infinity, or no number
  · exact Or.inr (Or.inr rfl)

theorem throughDoubles_numberToJson (x : Float) :
    (numberToJson x).throughDoubles = numberToJson x := by
  rcases numberToJson_cases x with ⟨n, hn, h⟩ | h | h
  · rw [h, throughDoubles_ofInt hn]
  · rw [h]
    exact h
  · rw [h]
    rfl

mutual

theorem throughDoubles_idem : ∀ v : Json, v.throughDoubles.throughDoubles = v.throughDoubles
  | .null | .bool _ | .string _ => rfl
  | .number n => throughDoubles_numberToJson n.toDouble
  | .array items => congrArg Json.array (throughDoublesItems_idem items)
  | .object entries => congrArg Json.object (throughDoublesEntries_idem entries)
termination_by structural v => v

theorem throughDoublesItems_idem : ∀ items : List Json,
    throughDoublesItems (throughDoublesItems items) = throughDoublesItems items
  | [] => rfl
  | v :: rest => congrArg₂ List.cons (throughDoubles_idem v) (throughDoublesItems_idem rest)
termination_by structural items => items

theorem throughDoublesEntries_idem : ∀ entries : List (String × Json),
    throughDoublesEntries (throughDoublesEntries entries) = throughDoublesEntries entries
  | [] => rfl
  | (key, v) :: rest =>
    congrArg₂ (fun w rest => (key, w) :: rest) (throughDoubles_idem v)
      (throughDoublesEntries_idem rest)
termination_by structural entries => entries

end

theorem isNorm_throughDoubles : IsNorm throughDoubles where
  null := rfl
  bool _ := rfl
  string _ := rfl
  array items := congrArg Json.array (throughDoublesItems_eq_map items)
  object entries := congrArg Json.object (throughDoublesEntries_eq_map entries)
  number _ := rfl
  safe _ hn := throughDoubles_ofInt hn
  idem := throughDoubles_idem

mutual

theorem nesting_throughDoubles : ∀ v : Json, v.throughDoubles.nesting = v.nesting
  | .null | .bool _ | .string _ => rfl
  | .number n => nesting_numberToJson n.toDouble
  | .array items => congrArg (· + 1) (nestingList_throughDoublesItems items)
  | .object entries => congrArg (· + 1) (nestingEntries_throughDoublesEntries entries)
termination_by structural v => v

theorem nestingList_throughDoublesItems : ∀ items : List Json,
    nestingList (throughDoublesItems items) = nestingList items
  | [] => rfl
  | v :: rest => congrArg₂ max (nesting_throughDoubles v) (nestingList_throughDoublesItems rest)
termination_by structural items => items

theorem nestingEntries_throughDoublesEntries : ∀ entries : List (String × Json),
    nestingEntries (throughDoublesEntries entries) = nestingEntries entries
  | [] => rfl
  | (_, v) :: rest =>
    congrArg₂ max (nesting_throughDoubles v) (nestingEntries_throughDoublesEntries rest)
termination_by structural entries => entries

end

theorem sorted_throughDoublesEntries {entries : Fields Json} (h : Fields.Sorted entries) :
    Fields.Sorted (throughDoublesEntries entries) := by
  rw [throughDoublesEntries_eq_map]
  exact List.pairwise_map.2 h

theorem ordered_numberToJson (x : Float) : (numberToJson x).Ordered := by
  rcases numberToJson_cases x with ⟨n, -, h⟩ | h | h
  · rw [h]
    exact trivial
  · rw [h]
    exact trivial
  · rw [h]
    exact trivial

mutual

theorem ordered_throughDoubles : ∀ {v : Json}, v.Ordered → v.throughDoubles.Ordered
  | .null, h | .bool _, h | .string _, h => h
  | .number n, _ => ordered_numberToJson n.toDouble
  | .array _, h => orderedItems_throughDoublesItems h
  | .object _, ⟨hs, h⟩ =>
    ⟨sorted_throughDoublesEntries hs, orderedEntries_throughDoublesEntries h⟩
termination_by structural v => v

theorem orderedItems_throughDoublesItems : ∀ {items : List Json}, OrderedItems items →
    OrderedItems (throughDoublesItems items)
  | [], h => h
  | _ :: _, ⟨hv, hrest⟩ => ⟨ordered_throughDoubles hv, orderedItems_throughDoublesItems hrest⟩
termination_by structural items => items

theorem orderedEntries_throughDoublesEntries : ∀ {entries : List (String × Json)},
    OrderedEntries entries → OrderedEntries (throughDoublesEntries entries)
  | [], h => h
  | (_, _) :: _, ⟨hv, hrest⟩ =>
    ⟨ordered_throughDoubles hv, orderedEntries_throughDoublesEntries hrest⟩
termination_by structural entries => entries

end

theorem safe_of_mem_numberToJson {x : Float} {k : Int}
    (hk : Numeral.whole k ∈ (numberToJson x).numerals) : k.natAbs ≤ maxSafe := by
  rcases numberToJson_cases x with ⟨n, hn, h⟩ | h | h
  · rw [h] at hk
    obtain rfl := Numeral.whole.inj (List.mem_singleton.1 hk)
    exact hn
  · rw [h] at hk
    exact absurd (List.mem_singleton.1 hk) nofun
  · rw [h] at hk
    contradiction

mutual

/-- Its whole numbers are safe. -/
theorem safe_of_mem_numerals : ∀ {v : Json} {k : Int},
    Numeral.whole k ∈ v.throughDoubles.numerals → k.natAbs ≤ maxSafe
  | .null, _, hk | .bool _, _, hk | .string _, _, hk => by contradiction
  | .number n, _, hk => safe_of_mem_numberToJson (x := n.toDouble) hk
  | .array _, _, hk => safe_of_mem_itemNumerals hk
  | .object _, _, hk => safe_of_mem_entryNumerals hk
termination_by structural v => v

theorem safe_of_mem_itemNumerals : ∀ {items : List Json} {k : Int},
    Numeral.whole k ∈ itemNumerals (throughDoublesItems items) → k.natAbs ≤ maxSafe
  | [], _, hk => by contradiction
  | v :: rest, _, hk => by
    rcases List.mem_append.1 hk with hk | hk
    · exact safe_of_mem_numerals hk
    · exact safe_of_mem_itemNumerals hk
termination_by structural items => items

theorem safe_of_mem_entryNumerals : ∀ {entries : List (String × Json)} {k : Int},
    Numeral.whole k ∈ entryNumerals (throughDoublesEntries entries) → k.natAbs ≤ maxSafe
  | [], _, hk => by contradiction
  | (_, v) :: rest, _, hk => by
    rcases List.mem_append.1 hk with hk | hk
    · exact safe_of_mem_numerals hk
    · exact safe_of_mem_entryNumerals hk
termination_by structural entries => entries

end

section

variable {v : Json} (ho : v.Ordered) (hroom : v.nesting ≤ maxNesting)
  (hn : v.throughDoubles.ReadsBack)
include ho hroom hn

/-- What is left is read from both of its texts. -/
theorem parse?_texts : parse? v.throughDoubles.compact = some v.throughDoubles ∧
    ∀ indent : String, Gap indent.toList →
      parse? (v.throughDoubles.pretty indent) = some v.throughDoubles := by
  have ho' := ordered_throughDoubles ho
  have hroom' : v.throughDoubles.nesting ≤ maxNesting := by rwa [nesting_throughDoubles]
  have hread : ∀ n ∈ v.throughDoubles.numerals, IsRead n := by
    intro n hmem
    cases n with
    | whole k => exact readNumeral?_whole (safe_of_mem_numerals hmem)
    | double x => exact isRead_of_reread? (hn _ hmem)
  exact ⟨parse?_compact ho' hroom' hread, fun indent hi => parse?_pretty ho' hroom' hread hi⟩

end

end Json

end Workflow
