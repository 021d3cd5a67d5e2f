import Workflow.Evaluate
import Workflow.Proofs.Eval.Affords
import Workflow.Proofs.Eval.PlainData
import Workflow.Proofs.Expr.ReadBack
import Workflow.Proofs.Fields
import Workflow.Proofs.Json.Lexed
import Workflow.Proofs.Number.Whole

/-! JSON text as an expression: the expression that it is read as, and what running that takes. -/
namespace Workflow

def Numeral.expr : Numeral → Expr
  | .whole n =>
    if n < 0 then .unary .neg (.literal (.number (Number.ofDecimal n.natAbs 0)))
    else .literal (.number (Number.ofDecimal n.natAbs 0))
  | .double x => .literal (.number x)

/-- A sign opens a level of nesting. -/
def Numeral.levels : Numeral → Nat
  | .whole n => if n < 0 then 1 else 0
  | .double _ => 0

namespace Json

mutual

/-- The expression that the text of a value is read as. -/
def expr : Json → Expr
  | .null => .literal .null
  | .bool b => .literal (.bool b)
  | .number n => n.expr
  | .string s => .literal (.string s)
  | .array items => .array (itemExprs items)
  | .object entries => .object (entryExprs entries)
termination_by structural v => v

def itemExprs : List Json → List Expr
  | [] => []
  | v :: rest => v.expr :: itemExprs rest
termination_by structural items => items

def entryExprs : List (String × Json) → List (String × Expr)
  | [] => []
  | (key, v) :: rest => (key, v.expr) :: entryExprs rest
termination_by structural entries => entries

end

mutual

/-- How many levels of nesting the expression opens, when it is read and when it is run. -/
def levels : Json → Nat
  | .number n => n.levels
  | .array items => itemLevels items
  | .object entries => entryLevels entries
  | .null | .bool _ | .string _ => 0
termination_by structural v => v

def itemLevels : List Json → Nat
  | [] => 0
  | v :: rest => max (v.levels + 1) (itemLevels rest)
termination_by structural items => items

def entryLevels : List (String × Json) → Nat
  | [] => 0
  | (_, v) :: rest => max (v.levels + 1) (entryLevels rest)
termination_by structural entries => entries

end

mutual

/-- How many items and entries a value has, those inside included. -/
def units : Json → Nat
  | .array items => items.length + itemUnits items
  | .object entries => entries.length + entryUnits entries
  | .null | .bool _ | .number _ | .string _ => 0
termination_by structural v => v

def itemUnits : List Json → Nat
  | [] => 0
  | v :: rest => v.units + itemUnits rest
termination_by structural items => items

def entryUnits : List (String × Json) → Nat
  | [] => 0
  | (_, v) :: rest => v.units + entryUnits rest
termination_by structural entries => entries

end

theorem length_itemExprs (items : List Json) : (itemExprs items).length = items.length := by
  induction items with
  | nil => rfl
  | cons v rest ih => exact congrArg (· + 1) ih

theorem length_entryExprs (entries : List (String × Json)) :
    (entryExprs entries).length = entries.length := by
  induction entries with
  | nil => rfl
  | cons e rest ih => exact congrArg (· + 1) ih

end Json

theorem Numeral.spells (n : Numeral) : Spells n.expr n.tokens n.levels := by
  cases n with
  | double x => exact .number x
  | whole n =>
    unfold expr tokens levels
    dsimp only
    split
    · exact .unary .neg (.bare (show 9 ≤ 11 by decide) (.number _))
    · exact .number _

namespace Json

theorem spells_at {e : Expr} {ts : List Token} {n : Nat} (h : Spells e ts n) : SpellsAt 0 e ts n :=
  .bare (Nat.zero_le _) h

mutual

theorem spells : (v : Json) → Spells v.expr v.tokens v.levels
  | .null => .null
  | .bool true => .true
  | .bool false => .false
  | .number n => n.spells
  | .string s => .string s
  | .array items => .array (spells_items items)
  | .object entries => .object (spells_entries entries)
termination_by structural v => v

theorem spells_items : (items : List Json) →
    SpellsItems (itemExprs items) (itemTokens true items) (itemLevels items)
  | [] => .nil
  | [v] => by
    have h := SpellsItems.one (spells_at (spells v))
    show SpellsItems [v.expr] ([] ++ (v.tokens ++ [])) (max (v.levels + 1) 0)
    rwa [List.append_nil, Nat.max_zero]
  | v :: v' :: rest => .cons (spells_at (spells v)) (spells_items (v' :: rest))
termination_by structural items => items

theorem spells_entries : (entries : List (String × Json)) →
    SpellsEntries (entryExprs entries) (entryTokens true entries) (entryLevels entries)
  | [] => .nil
  | [(key, v)] => by
    have h := SpellsEntries.one (.pair (.string key) (spells_at (spells v)))
    show SpellsEntries [(key, v.expr)] ([] ++ (.string key :: .mark .colon :: (v.tokens ++ [])))
      (max (v.levels + 1) 0)
    rwa [List.append_nil, Nat.max_zero]
  | (key, v) :: e :: rest => by
    have h := SpellsEntries.cons (.pair (.string key) (spells_at (spells v)))
      (spells_entries (e :: rest))
    exact h
termination_by structural entries => entries

end

/-- The text of a value is read as its expression. -/
theorem parse_compact {v : Json} (hv : v.Safe) {limit : Nat} (hl : v.levels < limit) :
    Expr.parse limit v.compact = .ok v.expr := by
  obtain ⟨spanned, hs, ht⟩ := tokenize_compact hv
  exact Parser.parse_of_spells (spells_at v.spells) hl hs ht

open Eval

mutual

/-- No array and no object is longer than the bound. -/
def WithinLength (bound : Nat) : Json → Prop
  | .array items => items.length ≤ bound ∧ ItemsWithinLength bound items
  | .object entries => entries.length ≤ bound ∧ EntriesWithinLength bound entries
  | .null | .bool _ | .number _ | .string _ => True
termination_by structural v => v

def ItemsWithinLength (bound : Nat) : List Json → Prop
  | [] => True
  | v :: rest => v.WithinLength bound ∧ ItemsWithinLength bound rest
termination_by structural items => items

def EntriesWithinLength (bound : Nat) : List (String × Json) → Prop
  | [] => True
  | (_, v) :: rest => v.WithinLength bound ∧ EntriesWithinLength bound rest
termination_by structural entries => entries

end

end Json

namespace Eval

variable {s : Setting} {call : Caller} {env : Env} {levels : Nat}

/-- The outcome of the value is the plain data. -/
def Carries (w : Value) (v : Json) : Prop :=
  Outcome.ofValue? w = some (.plain v)

theorem Carries.toJson? {w : Value} {v : Json} (h : Carries w v) : w.toJson? = some v := by
  unfold Carries Outcome.ofValue? at h
  split at h
  · exact absurd (Option.some.inj h) nofun
  · obtain ⟨j, hj, he⟩ := Option.map_eq_some_iff.1 h
    rw [hj, Outcome.plain.inj he]

theorem affords_link {v : Json} {w : Value} (h : Carries w v) :
    Affords s levels 0 (pure (some w)) fun link => ∃ w, link = some w ∧ Carries w v :=
  .pure ⟨w, rfl, h⟩

theorem carries_number {x : Float} {n : Int} (h : Value.numberToJson x = .ofInt n) :
    Carries (.number x) (.number (.whole n)) :=
  congrArg (fun j => some (Outcome.plain j)) h

theorem affords_numeral (hs : Untimed s) {n : Numeral} (hn : n.Safe) :
    Affords s n.levels 0 (step call env n.expr)
      fun link => ∃ w, link = some w ∧ Carries w (.number n) := by
  cases n with
  | double x => exact absurd hn id
  | whole n =>
    have hn : n.natAbs ≤ Number.maxSafe := hn
    unfold Numeral.levels Numeral.expr
    dsimp only
    -- the sign of a negative number is an operator, whose operand is one level deeper
    split
    · rename_i hneg
      have hvalue := Number.numberToJson_neg_ofDecimal (by omega) hn
      rw [show -(n.natAbs : Int) = n by omega] at hvalue
      have hoperand : Affords s 1 0
          (asValue (step call env (.literal (.number (Number.ofDecimal n.natAbs 0)))))
          fun w => w = .number (Number.ofDecimal n.natAbs 0) :=
        Affords.as_value hs (.pure ⟨_, rfl, rfl⟩)
      refine hoperand.bind_free fun w hw => ?_
      subst hw
      exact affords_link (carries_number hvalue)
    · rename_i hpos
      have hvalue := Number.numberToJson_ofDecimal hn
      rw [show (n.natAbs : Int) = n by omega] at hvalue
      exact affords_link (carries_number hvalue)

theorem carries_array {mark : Mark} {ws : List Value} {items : List Json}
    (h : Value.itemsToJson [] ws = items) : Carries (.array mark ws) (.array items) :=
  congrArg (fun items => some (Outcome.plain (.array items))) h

theorem carries_object {mark : Mark} {ws : List (String × Value)} {entries : List (String × Json)}
    (h : Value.entriesToJson [] ws = entries) : Carries (.object mark ws) (.object entries) :=
  congrArg (fun entries => some (Outcome.plain (.object entries))) h

/-- Values whose keys are those of sorted entries are sorted. -/
theorem sorted_of_keys {ws : List (String × Value)} {entries : List (String × Json)}
    (hk : ws.map Prod.fst = entries.map Prod.fst) (h : Fields.Sorted entries) :
    Fields.Sorted ws := by
  have hpair : (entries.map Prod.fst).Pairwise (· < ·) := List.pairwise_map.2 h
  rw [← hk] at hpair
  exact List.pairwise_map.1 hpair

mutual

/-- The expression of a value is evaluated to the value. -/
theorem affords_step (hs : Untimed s) : (v : Json) → v.Safe →
    v.WithinLength s.limits.maxCollectionLength →
      Affords s v.levels v.units (step call env v.expr)
        fun link => ∃ w, link = some w ∧ Carries w v
  | .null, _, _ => affords_link rfl
  | .bool _, _, _ => affords_link rfl
  | .string _, _, _ => affords_link rfl
  | .number _, hv, _ => affords_numeral hs hv
  | .array items, hv, hw => by
    have hlength : (Json.itemExprs items).length = items.length := Json.length_itemExprs items
    show Affords s _ (items.length + Json.itemUnits items)
      (reserveItems (Json.itemExprs items).length >>= _) _
    rw [hlength]
    -- the items are charged for before they are evaluated
    refine (Affords.reserveItems hs hw.1).bind fun _ _ => ?_
    refine (affords_stepItems hs items hv hw.2 []).bind_free fun ws hws => ?_
    obtain ⟨_, rfl, hmore⟩ := hws
    refine ((Affords.freeArray _).imp ?_).some_of
    rintro _ ⟨mark, rfl⟩
    exact carries_array hmore
  | .object entries, hv, hw => by
    have hlength : (Json.entryExprs entries).length = entries.length :=
      Json.length_entryExprs entries
    show Affords s _ (entries.length + Json.entryUnits entries)
      (reserveItems (Json.entryExprs entries).length >>= _) _
    rw [hlength]
    refine (Affords.reserveItems hs hw.1).bind fun _ _ => ?_
    refine (affords_stepEntries hs entries hv.2 hw.2 []).bind_free fun ws hws => ?_
    obtain ⟨_, rfl, hkeys, hmore⟩ := hws
    refine ((Affords.freeObject _).imp ?_).some_of
    rintro _ ⟨mark, rfl⟩
    -- the keys are those of the value, which are sorted
    rw [Fields.ofList_of_sorted (sorted_of_keys hkeys hv.1)]
    exact carries_object hmore
termination_by structural v => v

theorem affords_stepItems (hs : Untimed s) : (items : List Json) → Json.SafeItems items →
    Json.ItemsWithinLength s.limits.maxCollectionLength items → (done : List Value) →
      Affords s (Json.itemLevels items) (Json.itemUnits items)
        (stepItems call env done (Json.itemExprs items))
        fun ws => ∃ more, ws = done.reverse ++ more ∧ Value.itemsToJson [] more = items
  | [], _, _, done => .pure ⟨[], (List.append_nil _).symm, rfl⟩
  | v :: rest, ⟨hv, hrest⟩, ⟨hw, hwrest⟩, done => by
    refine Affords.bind (((affords_step hs v hv hw).as_value hs).mono (Nat.le_max_left ..)
      (Nat.le_refl _)) fun w hc => ?_
    refine ((affords_stepItems hs rest hrest hwrest (w :: done)).mono (Nat.le_max_right ..)
      (Nat.le_refl _)).imp ?_
    rintro _ ⟨more, rfl, hmore⟩
    refine ⟨w :: more, ?_, ?_⟩
    · rw [List.reverse_cons, List.append_assoc]
      rfl
    · rw [Value.itemsToJson_cons hc.toJson?, hmore]
termination_by structural items => items

theorem affords_stepEntries (hs : Untimed s) : (entries : List (String × Json)) →
    Json.SafeEntries entries →
    Json.EntriesWithinLength s.limits.maxCollectionLength entries →
      (done : List (String × Value)) →
        Affords s (Json.entryLevels entries) (Json.entryUnits entries)
          (stepEntries call env done (Json.entryExprs entries))
          fun ws => ∃ more, ws = done.reverse ++ more ∧
            more.map Prod.fst = entries.map Prod.fst ∧ Value.entriesToJson [] more = entries
  | [], _, _, done => .pure ⟨[], (List.append_nil _).symm, rfl, rfl⟩
  | (key, v) :: rest, ⟨hv, hrest⟩, ⟨hw, hwrest⟩, done => by
    refine Affords.bind (((affords_step hs v hv hw).as_value hs).mono (Nat.le_max_left ..)
      (Nat.le_refl _)) fun w hc => ?_
    refine ((affords_stepEntries hs rest hrest hwrest ((key, w) :: done)).mono
      (Nat.le_max_right ..) (Nat.le_refl _)).imp ?_
    rintro _ ⟨more, rfl, hkeys, hmore⟩
    refine ⟨(key, w) :: more, ?_, congrArg (key :: ·) hkeys, ?_⟩
    · rw [List.reverse_cons, List.append_assoc]
      rfl
    · rw [Value.entriesToJson_cons hc.toJson?, hmore]
termination_by structural entries => entries

end

end Eval

open Eval

/-- Limits that are enough to run the text of a value as an expression: no look at the clock ends
it, no part is too long, and there is room for all levels and parts. -/
structure Suffices (s : Setting) (v : Json) : Prop where
  untimed : Untimed s
  length : v.WithinLength s.limits.maxCollectionLength
  levels : v.levels < s.limits.nesting
  units : v.units ≤ s.limits.maxTotalElements

/-- The compact text of plain data is an expression. It is read with any limit above its nesting,
and in any setting with enough room it is run to the data. A text alone is one token. -/
theorem compact_is_expression (v : Json) (hv : v.Safe) :
    (∃ e, (∀ limit, v.levels < limit → Expr.parse limit v.compact = .ok e) ∧
      ∀ s : Setting, Suffices s v → runIn s e = .ok (.plain v)) ∧
    ∀ x : String, ∃ spanned : List Spanned, tokenize (Json.string x).compact = .ok spanned ∧
      spanned.map Spanned.token = [.string x, .stop] := by
  refine ⟨⟨v.expr, fun limit hl => Json.parse_compact hv hl, fun s hs => ?_⟩,
    fun x => Json.tokenize_compact (v := .string x) (by exact trivial)⟩
  have hrun : Affords s (v.levels + 1) v.units (Eval.run v.expr) fun w => Carries w v :=
    (affords_step hs.untimed v hv hs.length).as_value hs.untimed
  have hroom : 0 + (v.levels + 1) ≤ s.limits.nesting := by
    have := hs.levels
    omega
  have hunits : 0 + v.units ≤ s.limits.maxTotalElements := by
    have := hs.units
    omega
  obtain ⟨w, t, he, hw, -⟩ := hrun {} hroom hunits
  unfold runIn
  rw [show ((Eval.run v.expr).run s).run {} = .ok w t from he]
  dsimp only
  rw [hw]

/-- An entry with a negative number, under a key that is escaped. -/
def escapedEntry : Json :=
  .object [("a\n\x22", .array [.ofInt (-2), .null])]

theorem escaped_entry_is_expression :
    ∃ e, Expr.parse 4 escapedEntry.compact = .ok e ∧
      runIn { limits := {}, now := ⟨0, 0⟩, roots := [], zones := .known } e =
        .ok (.plain escapedEntry) := by
  have hnumber : (Numeral.whole (-2)).Safe := show (-2 : Int).natAbs ≤ Number.maxSafe by decide
  have hsafe : escapedEntry.Safe :=
    ⟨List.pairwise_singleton _ _, ⟨hnumber, trivial, trivial⟩, trivial⟩
  obtain ⟨e, hparse, hrun⟩ := (compact_is_expression escapedEntry hsafe).1
  have huntimed : Untimed { limits := {}, now := ⟨0, 0⟩, roots := [], zones := .known } :=
    fun _ => show 0 < 5000 by decide
  refine ⟨e, hparse 4 (by decide), hrun _ ⟨huntimed, ?_, by decide, by decide⟩⟩
  exact ⟨by decide, ⟨by decide, trivial, trivial, trivial⟩, trivial⟩

end Workflow
