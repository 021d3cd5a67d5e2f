import Workflow.Eval.Run
import Workflow.Expr.Parser
import Workflow.Proofs.Eval.Yields
import Workflow.Proofs.Number.Literal
import Workflow.Proofs.Number.Order
import Workflow.Proofs.Time.TextOrder

/-! The order of points in time and numbers. A moment stands for its milliseconds, as a number
does; a date stands for its text, which is no number. -/
namespace Workflow.Eval

open Time

namespace Value

/-- The milliseconds since the start of 1970 that `getTime` and `toMillis` give; a number gives
itself. -/
def InMillis (x : Float) : Value → Prop
  | .date t => dateMethod t .time = .number x
  | .moment m => momentMethod m .toMillis [] = pure (.number x)
  | .number y => y = x
  | _ => False

def IsDate (v : Value) : Prop :=
  ∃ t, v = .date t

/-- A date stands for its text, everything else with milliseconds for those. -/
theorem InMillis.toPrimitive {v : Value} {x : Float} (h : v.InMillis x) :
    (∃ t, v = .date t ∧ x = Number.ofInt t.toMillis ∧ v.toPrimitive = .string t.isoText) ∨
      ¬ v.IsDate ∧ v.toPrimitive = .number x := by
  cases v with
  | date t => exact Or.inl ⟨t, rfl, (Value.number.inj h).symm, rfl⟩
  | moment m => exact Or.inr ⟨nofun, pure_inj h⟩
  | number y => exact Or.inr ⟨nofun, congrArg Value.number h⟩
  | _ => exact h.elim

/-- The text of a date is no number. -/
theorem order?_isoText (t : Timestamp) (y : Float) :
    order? (.string t.isoText) (.number y) = none ∧
      order? (.number y) (.string t.isoText) = none := by
  have hnan : (Value.string t.isoText).toNumber.toModel.unpack = .notANumber := by
    show (Number.ofText t.isoText.toList).toModel.unpack = _
    rw [Number.ofText_of_colon t.isoText_colon]
    rfl
  constructor
  · show numberOrder? (Value.string t.isoText).toNumber y = none
    rw [Number.numberOrder?_eq, hnan]
    rfl
  · show numberOrder? y (Value.string t.isoText).toNumber = none
    rw [Number.numberOrder?_eq, hnan, Number.compare_swap]
    rfl

theorem numberOrder?_eq_none_iff (x y : Float) :
    numberOrder? x y = none ↔ x.isNaN = true ∨ y.isNaN = true := by
  rw [Number.numberOrder?_eq, Number.compare_eq_none_iff, Number.isNaN_iff, Number.isNaN_iff]

end Value

/-- The operators that compare are the same for two values and for two numbers. -/
def ComparesAs (v w : Value) (x y : Float) : Prop :=
  ∀ op ∈ [BinaryOp.lt, .le, .gt, .ge],
    applyBinary op v w = applyBinary op (.number x) (.number y)

/-- What comparisons tell gives the order away. -/
theorem eq_of_any {o o' : Option Ordering} (hlt : o.any (·.isLT) = o'.any (·.isLT))
    (hle : o.any (·.isLE) = o'.any (·.isLE)) (hgt : o.any (·.isGT) = o'.any (·.isGT)) : o = o' := by
  cases o with
  | none =>
    cases o' with
    | none => rfl
    | some o' => cases o' <;> contradiction
  | some o =>
    cases o' with
    | none => cases o <;> contradiction
    | some o' => cases o <;> cases o' <;> first | rfl | contradiction

theorem comparesAs_iff (v w : Value) (x y : Float) :
    ComparesAs v w x y ↔ v.toPrimitive.order? w.toPrimitive = Value.numberOrder? x y := by
  constructor
  · intro h
    have hlt := Value.bool.inj (pure_inj (h .lt (by decide)))
    have hle := Value.bool.inj (pure_inj (h .le (by decide)))
    have hgt := Value.bool.inj (pure_inj (h .gt (by decide)))
    exact eq_of_any hlt hle hgt
  · intro h op hop
    have hcompare (holds : Ordering → Bool) :
        compare holds v w = compare holds (.number x) (.number y) :=
      congrArg (fun o : Option Ordering => Value.bool (o.any holds)) h
    simp only [List.mem_cons, List.not_mem_nil, or_false] at hop
    rcases hop with rfl | rfl | rfl | rfl
    · exact congrArg pure (hcompare _)
    · exact congrArg pure (hcompare _)
    · exact congrArg pure (hcompare _)
    · exact congrArg pure (hcompare _)

/-- Moments and numbers compare by their milliseconds. A date and one of those compare as what is no
number does, and two dates as their texts, which are in the order of time from year 0 to year 9999,
but for leap seconds. -/
theorem comparesAs_millis_iff_not_date {v w : Value} {x y : Float} (hv : v.InMillis x)
    (hw : w.InMillis y) :
    (¬ v.IsDate → ¬ w.IsDate → ComparesAs v w x y) ∧
    ((v.IsDate ↔ ¬ w.IsDate) → (ComparesAs v w x y ↔ x.isNaN = true ∨ y.isNaN = true)) ∧
    (∀ s t, v = .date s → w = .date t → s.IsRepresentable → t.IsRepresentable →
      (ComparesAs v w x y ↔
        Value.textOrder s.isoText t.isoText = Ord.compare s.toMillis t.toMillis) ∧
      (s.IsPlain → t.IsPlain → ComparesAs v w x y)) := by
  rw [comparesAs_iff, ← Value.numberOrder?_eq_none_iff]
  refine ⟨fun hvd hwd => ?_, fun hone => ?_, ?_⟩
  · obtain ⟨-, hvp⟩ := hv.toPrimitive.resolve_left fun ⟨t, ht, _⟩ => hvd ⟨t, ht⟩
    obtain ⟨-, hwp⟩ := hw.toPrimitive.resolve_left fun ⟨t, ht, _⟩ => hwd ⟨t, ht⟩
    rw [hvp, hwp]
    rfl
  · rcases hv.toPrimitive with ⟨t, ht, -, hvp⟩ | ⟨hvd, hvp⟩
    · obtain ⟨-, hwp⟩ := hw.toPrimitive.resolve_left fun ⟨u, hu, _⟩ => hone.1 ⟨t, ht⟩ ⟨u, hu⟩
      rw [hvp, hwp, (Value.order?_isoText t y).1]
      exact eq_comm
    · obtain ⟨t, -, -, hwp⟩ := hw.toPrimitive.resolve_right fun h => hvd (hone.2 h.1)
      rw [hvp, hwp, (Value.order?_isoText t x).2]
      exact eq_comm
  · rintro s t rfl rfl hs ht
    have hx : Number.ofInt s.toMillis = x := Value.number.inj hv
    have hy : Number.ofInt t.toMillis = y := Value.number.inj hw
    have hiff : (Value.date s).toPrimitive.order? (Value.date t).toPrimitive =
        Value.numberOrder? x y ↔
          Value.textOrder s.isoText t.isoText = Ord.compare s.toMillis t.toMillis := by
      rw [← hx, ← hy, Number.numberOrder?_ofInt hs.toMillis_le ht.toMillis_le]
      exact Option.some_inj
    exact ⟨hiff, fun hs ht => hiff.2 (Timestamp.textOrder_isoText hs ht)⟩

/-- A date and the day behind it, a date and a number, a moment and a number. -/
theorem comparesAs_millis_iff_not_date_epoch :
    ComparesAs (.date ⟨0, 0⟩) (.date ⟨86400, 0⟩) (Number.ofInt 0) (Number.ofInt 86400000) ∧
      ¬ ComparesAs (.date ⟨0, 0⟩) (.number 1.0) (Number.ofInt 0) 1.0 ∧
      ComparesAs (.moment ⟨⟨0, 0⟩, 3600⟩) (.number 1.0) (Number.ofInt 0) 1.0 := by
  have hplain : (⟨0, 0⟩ : Timestamp).IsPlain := ⟨by decide, by decide, by decide⟩
  have hplain' : (⟨86400, 0⟩ : Timestamp).IsPlain := ⟨by decide, by decide, by decide⟩
  have hdate : (Value.date ⟨0, 0⟩).InMillis (Number.ofInt 0) := rfl
  have hdate' : (Value.date ⟨86400, 0⟩).InMillis (Number.ofInt 86400000) := rfl
  have hmoment : (Value.moment ⟨⟨0, 0⟩, 3600⟩).InMillis (Number.ofInt 0) := rfl
  have hnumber : (Value.number 1.0).InMillis 1.0 := rfl
  obtain ⟨-, -, hdates⟩ := comparesAs_millis_iff_not_date hdate hdate'
  obtain ⟨-, hmixed, -⟩ := comparesAs_millis_iff_not_date hdate hnumber
  obtain ⟨hneither, -, -⟩ := comparesAs_millis_iff_not_date hmoment hnumber
  refine ⟨(hdates _ _ rfl rfl ⟨by decide, by decide⟩ ⟨by decide, by decide⟩).2 hplain hplain',
    fun h => ?_, hneither nofun nofun⟩
  have hnan := (hmixed ⟨fun _ => nofun, fun _ => ⟨_, rfl⟩⟩).1 h
  exact absurd hnan (by decide)

/-- From year 10000 on the texts start with a plus, which is in front of all digits. -/
example : Value.textOrder (Timestamp.ofMillis 253402300800000).isoText
    (Timestamp.ofMillis 253402300799999).isoText = .lt := by
  decide +kernel

/-- Whether the start of 1970 is before the first millisecond. -/
def epochComparison : Expr :=
  .binary .lt (.construct (.name "Date") [.literal (.number (Number.ofDecimal 0 0))])
    (.literal (.number (Number.ofDecimal 1 0)))

/-- The answer of a run that ends in yes or no. -/
def truthOf? : EStateM.Result Fault Meter Value → Option Bool
  | .ok (.bool b) _ => some b
  | _ => none

/-- It is not, and it would be if dates stood for milliseconds. -/
theorem not_every_date_comparesAs_millis :
    Expr.parse 64 "new Date(0) < 1" = .ok epochComparison ∧
      truthOf? (run epochComparison { limits := {}, now := ⟨0, 0⟩, roots := [], zones := .known } {}) =
        some false ∧
      (0.0 : Float) < 1.0 ∧
      ¬ ∀ v w x y, Value.InMillis x v → Value.InMillis y w → ComparesAs v w x y := by
  refine ⟨by with_unfolding_all rfl, by decide +kernel, by decide +kernel, fun h => ?_⟩
  have hcompares := h (.date ⟨0, 0⟩) (.number 1.0) (Number.ofInt 0) 1.0 rfl rfl
  have hlt := (comparesAs_iff _ _ _ _).1 hcompares
  have hnumbers : Value.numberOrder? (Number.ofInt 0) 1.0 = some .lt := by decide +kernel
  have hnone := (Value.order?_isoText ⟨0, 0⟩ 1.0).1.symm.trans (hlt.trans hnumbers)
  cases hnone

end Workflow.Eval
