import Mathlib
import Workflow.Proofs.Number.Whole

/-! How doubles compare, and where they are numbers at all. All but what is no number are in order,
and whole numbers that doubles hold exactly are in the order of the numbers. What is rounded is a
number or too large for one, so that whole numbers and decimals always are numbers. -/
namespace Workflow.Number

open Float.Model Float.Model.UnpackedFloat

theorem compare_swap (x y : UnpackedFloat) : y.compare x = (x.compare y).map Ordering.swap := by
  cases x with
  | notANumber => cases y <;> rfl
  | infinity s =>
    cases y with
    | infinity s' => cases s <;> cases s' <;> rfl
    | _ => cases s <;> rfl
  | zero s =>
    cases y with
    | infinity s' => cases s' <;> rfl
    | finite s' => cases s' <;> rfl
    | _ => rfl
  | finite s m e h =>
    cases y with
    | infinity s' => cases s <;> cases s' <;> rfl
    | finite s' m' e' h' =>
      cases s <;> cases s' <;>
        simp [UnpackedFloat.compare, Ordering.swap_then, Std.OrientedOrd.eq_swap (a := e) (b := e'),
          Std.OrientedOrd.eq_swap (a := m) (b := m')]
    | _ => cases s <;> rfl

theorem compare_eq_none_iff (x y : UnpackedFloat) :
    x.compare y = none ↔ x = .notANumber ∨ y = .notANumber := by
  cases x with
  | notANumber => simp [UnpackedFloat.compare]
  | infinity s =>
    cases y with
    | infinity s' => simp [UnpackedFloat.compare]
    | _ => cases s <;> simp [UnpackedFloat.compare]
  | zero s =>
    cases y with
    | infinity s' => cases s' <;> simp [UnpackedFloat.compare]
    | finite s' => cases s' <;> simp [UnpackedFloat.compare]
    | _ => simp [UnpackedFloat.compare]
  | finite s =>
    cases y with
    | infinity s' => cases s' <;> simp [UnpackedFloat.compare]
    | finite s' => cases s <;> cases s' <;> simp [UnpackedFloat.compare]
    | _ => cases s <;> simp [UnpackedFloat.compare]

theorem beq_iff (x y : Float) :
    (x == y) = true ↔ x.toModel.unpack.compare y.toModel.unpack = some .eq := by
  show (x.toModel.unpack.compare y.toModel.unpack == some .eq) = true ↔ _
  rw [beq_iff_eq]

theorem lt_iff (x y : Float) : x < y ↔ x.toModel.unpack.compare y.toModel.unpack = some .lt := by
  show decide (x.toModel < y.toModel) = true ↔ _
  rw [decide_eq_true_iff]
  show (x.toModel.unpack.compare y.toModel.unpack == some .lt) = true ↔ _
  rw [beq_iff_eq]

theorem isNaN_iff (x : Float) : x.isNaN = true ↔ x.toModel.unpack = .notANumber := by
  show x.toModel.unpack.isNaN = true ↔ _
  exact UnpackedFloat.isNaN_iff

theorem numberOrder?_eq (x y : Float) :
    Eval.Value.numberOrder? x y = x.toModel.unpack.compare y.toModel.unpack := by
  unfold Eval.Value.numberOrder?
  simp only [lt_iff, beq_iff, compare_swap x.toModel.unpack y.toModel.unpack]
  cases x.toModel.unpack.compare y.toModel.unpack with
  | none => rfl
  | some o => cases o <;> rfl

/-- The exponents and mantissas of positive whole numbers are in the order of the numbers. -/
theorem compare_normal {m n : Nat} (hm : 0 < m) (hn : 0 < n) :
    (compare ((m.log2 : Int) - 52) (n.log2 - 52)).then
      (compare (m * 2 ^ (52 - m.log2)) (n * 2 ^ (52 - n.log2))) = compare m n := by
  have hless {k l : Nat} (hl : 0 < l) (h : k.log2 < l.log2) : k < l :=
    calc k < 2 ^ (k.log2 + 1) := Nat.lt_log2_self
      _ ≤ 2 ^ l.log2 := Nat.pow_le_pow_right (by decide) h
      _ ≤ l := Nat.log2_self_le (Nat.ne_of_gt hl)
  rcases Nat.lt_trichotomy m.log2 n.log2 with h | h | h
  · rw [Int.compare_eq_lt.2 (by omega), Nat.compare_eq_lt.2 (hless hn h)]
    rfl
  · rw [h, Int.compare_eq_eq.2 rfl]
    have hpow := Nat.two_pow_pos (52 - n.log2)
    show compare (m * 2 ^ (52 - n.log2)) (n * 2 ^ (52 - n.log2)) = _
    rw [Nat.compare_eq_ite_lt, Nat.compare_eq_ite_lt]
    simp only [Nat.mul_lt_mul_right hpow]
  · rw [Int.compare_eq_gt.2 (by omega), Nat.compare_eq_gt.2 (hless hm h)]
    rfl

/-- The double of a whole number is zero, or has the sign and the value of the number. -/
theorem unpack_ofInt {n : Int} (hn : n.natAbs ≤ maxSafe) :
    (n = 0 ∧ (ofInt n).toModel.unpack = .zero .positive) ∨
      ∃ (sign : Sign) (k : Nat) (hk : 0 < k) (hk' : k < 2 ^ 53), n = sign.apply k ∧
        (ofInt n).toModel.unpack =
          .finite sign (k * 2 ^ (52 - k.log2)) (k.log2 - 52) (normal_of_nat hk hk').pos := by
  have hlt : n.natAbs < 2 ^ 53 := Nat.lt_succ_of_le hn
  unfold ofInt
  rcases Int.lt_trichotomy n 0 with hneg | rfl | hpos
  · have hk : 0 < n.natAbs := Int.natAbs_pos.2 (Int.ne_of_lt hneg)
    refine Or.inr ⟨.negative, n.natAbs, hk, hlt, ?_, ?_⟩
    · show n = -(n.natAbs : Int)
      omega
    · rw [if_pos hneg, ofNat_eq hk hlt, neg_ofNormal]
      exact unpack_pack_normal (normal_of_nat hk hlt) _
  · exact Or.inl ⟨rfl, rfl⟩
  · have hk : 0 < n.natAbs := Int.natAbs_pos.2 (Int.ne_of_gt hpos)
    refine Or.inr ⟨.positive, n.natAbs, hk, hlt, ?_, ?_⟩
    · show n = (n.natAbs : Int)
      omega
    · rw [if_neg (Int.not_lt.2 (Int.le_of_lt hpos)), ofNat_eq hk hlt]
      exact unpack_pack_normal (normal_of_nat hk hlt) _

theorem compare_apply (sign : Sign) (k l : Nat) : compare (sign.apply k) (sign.apply l) =
    match sign with
    | .positive => compare k l
    | .negative => (compare k l).swap := by
  cases sign with
  | positive =>
    show compare (k : Int) l = compare k l
    rw [Int.compare_eq_ite_lt, Nat.compare_eq_ite_lt]
    simp only [Int.ofNat_lt]
  | negative =>
    show compare (-(k : Int)) (-l) = (compare k l).swap
    rw [Nat.compare_swap, Int.compare_eq_ite_lt, Nat.compare_eq_ite_lt]
    simp only [Int.neg_lt_neg_iff, Int.ofNat_lt]

theorem eq_some_compare_of_lt {o : Option Ordering} {a b : Int} (h : a < b) (ho : o = some .lt) :
    o = some (compare a b) := by
  rw [ho, Int.compare_eq_lt.2 h]

theorem eq_some_compare_of_gt {o : Option Ordering} {a b : Int} (h : b < a) (ho : o = some .gt) :
    o = some (compare a b) := by
  rw [ho, Int.compare_eq_gt.2 h]

theorem apply_pos {k : Nat} (hk : 0 < k) : 0 < Sign.positive.apply k :=
  Int.natCast_pos.2 hk

theorem apply_neg {k : Nat} (hk : 0 < k) : Sign.negative.apply k < 0 :=
  Int.neg_neg_of_pos (Int.natCast_pos.2 hk)

/-- Whole numbers that doubles hold exactly compare as numbers. -/
theorem numberOrder?_ofInt {a b : Int} (ha : a.natAbs ≤ maxSafe) (hb : b.natAbs ≤ maxSafe) :
    Eval.Value.numberOrder? (ofInt a) (ofInt b) = some (compare a b) := by
  rw [numberOrder?_eq]
  rcases unpack_ofInt ha with ⟨rfl, hx⟩ | ⟨sign, k, hk, _, rfl, hx⟩
  · rw [hx]
    rcases unpack_ofInt hb with ⟨rfl, hy⟩ | ⟨sign', l, hl, _, rfl, hy⟩
    · rw [hy]
      rfl
    · rw [hy]
      cases sign' with
      | positive => exact eq_some_compare_of_lt (apply_pos hl) rfl
      | negative => exact eq_some_compare_of_gt (apply_neg hl) rfl
  · rw [hx]
    rcases unpack_ofInt hb with ⟨rfl, hy⟩ | ⟨sign', l, hl, _, rfl, hy⟩
    · rw [hy]
      cases sign with
      | positive => exact eq_some_compare_of_gt (apply_pos hk) rfl
      | negative => exact eq_some_compare_of_lt (apply_neg hk) rfl
    · rw [hy]
      cases sign with
      | positive =>
        cases sign' with
        | positive =>
          rw [compare_apply]
          exact congrArg some (compare_normal hk hl)
        | negative =>
          exact eq_some_compare_of_gt (Int.lt_trans (apply_neg hl) (apply_pos hk)) rfl
      | negative =>
        cases sign' with
        | positive =>
          exact eq_some_compare_of_lt (Int.lt_trans (apply_neg hk) (apply_pos hl)) rfl
        | negative =>
          rw [compare_apply]
          exact congrArg (some ∘ Ordering.swap) (compare_normal hk hl)

/-- What is a number stays one when it is packed into the bits of a double. -/
theorem unpack_pack_ne_notANumber {u : UnpackedFloat} (h : u ≠ .notANumber) :
    (Float.Model.pack u).unpack ≠ .notANumber := by
  -- all exponents but that of infinity are below the one of what is no number
  have hcomponents {sign : Sign} {exponent : BitVec 11} {mantissa : BitVec 52}
      (hc : exponent ≠ -1#11 ∨ mantissa = 0#52) :
      UnpackedFloat.unpack .binary64 (packComponents .binary64 sign exponent mantissa) ≠
        .notANumber := by
    unfold UnpackedFloat.unpack
    dsimp only
    rw [unpackExponent_packComponents]
    by_cases hones : exponent = -1#11
    · rw [if_pos hones, unpackMantissa_packComponents, if_pos (hc.resolve_left (not_not_intro hones))]
      exact nofun
    · rw [if_neg hones]
      split
      · split
        · exact nofun
        · exact nofun
      · exact nofun
  show UnpackedFloat.unpack .binary64 (UnpackedFloat.pack .binary64 u) ≠ _
  cases u with
  | notANumber => exact absurd rfl h
  | infinity s => exact hcomponents (Or.inr rfl)
  | zero s => exact hcomponents (Or.inr rfl)
  | finite s m e hm =>
    unfold UnpackedFloat.pack
    dsimp only
    split
    · exact hcomponents (Or.inr rfl)
    · rename_i hbiased
      split
      · refine hcomponents (Or.inl fun hones => hbiased ?_)
        have hnat := congrArg BitVec.toNat hones
        rw [BitVec.toNat_ofNat] at hnat
        have hone : (-1#11 : BitVec 11).toNat = 2047 := by decide
        show 2 ^ 11 ≤ _ + 1
        change _ % 2 ^ 11 = _ at hnat
        omega
      · exact hcomponents (Or.inl (by decide))

theorem roundWithAccuracy_ne_notANumber (sign : Sign) (m : Nat) (e : Int) (a : Accuracy) :
    roundWithAccuracy .binary64 sign m e a ≠ .notANumber := by
  unfold roundWithAccuracy
  dsimp only
  split
  · exact nofun
  · exact nofun

theorem mul_ne_notANumber {u v : UnpackedFloat} (hu : u.isFinite = true) (hv : v.isFinite = true) :
    UnpackedFloat.mul .binary64 u v ≠ .notANumber := by
  cases u with
  | notANumber | infinity => cases hu
  | zero s =>
    cases v with
    | notANumber | infinity => cases hv
    | zero | finite => exact nofun
  | finite s m e hm =>
    cases v with
    | notANumber | infinity => cases hv
    | zero => exact nofun
    | finite => exact roundWithAccuracy_ne_notANumber _ _ _ _

theorem div_ne_notANumber {s : Sign} {m : Nat} {e : Int} {hm : 0 < m} {v : UnpackedFloat}
    (hv : v.isFinite = true) :
    UnpackedFloat.div .binary64 (.finite s m e hm) v ≠ .notANumber := by
  cases v with
  | notANumber | infinity => cases hv
  | zero => exact nofun
  | finite => exact roundWithAccuracy_ne_notANumber _ _ _ _

theorem ofScientific_ne_notANumber (m : Nat) (e : Int) :
    UnpackedFloat.ofScientific .binary64 m e ≠ .notANumber := by
  unfold UnpackedFloat.ofScientific
  split
  · exact nofun
  · split
    · exact nofun
    · split
      · exact nofun
      · split
        · exact mul_ne_notANumber rfl rfl
        · exact div_ne_notANumber rfl

/-- A decimal is a number, or too large for one. -/
theorem isNaN_ofScientific {n : Nat} (hn : 0 < n) (negative : Bool) (e : Nat) :
    (Float.ofScientific n negative e).isNaN = false := by
  rw [← Bool.not_eq_true, isNaN_iff]
  unfold Float.ofScientific
  split
  · rename_i h
    obtain ⟨hlt, he⟩ := h
    have hpowers : ∀ x ∈ Float.exactlyRepresentablePowersOfTen,
        x.toModel.unpack.isFinite = true := by
      decide
    have hsize : e < Float.exactlyRepresentablePowersOfTen.size := Nat.lt_succ_of_le he
    have hpower := hpowers _ (Array.getElem_mem hsize)
    have hunit := unpack_pack_normal (normal_of_nat hn hlt) .positive
    dsimp only
    rw [toFloat_toUInt64 hn hlt]
    split
    · refine unpack_pack_ne_notANumber ?_
      show UnpackedFloat.div .binary64 (Float.Model.pack _).unpack _ ≠ _
      rw [hunit]
      exact div_ne_notANumber hpower
    · refine unpack_pack_ne_notANumber ?_
      show UnpackedFloat.mul .binary64 (Float.Model.pack _).unpack _ ≠ _
      rw [hunit]
      exact mul_ne_notANumber rfl hpower
  · exact unpack_pack_ne_notANumber (ofScientific_ne_notANumber _ _)

theorem isNaN_neg {x : Float} (hx : x.isNaN = false) : (-x).isNaN = false := by
  rw [← Bool.not_eq_true, isNaN_iff] at hx ⊢
  refine unpack_pack_ne_notANumber ?_
  show x.toModel.unpack.neg ≠ _
  cases hu : x.toModel.unpack with
  | notANumber => exact absurd hu hx
  | infinity | zero | finite => exact nofun

theorem isNaN_ofNat (n : Nat) : (Float.ofNat n).isNaN = false := by
  rcases Nat.eq_zero_or_pos n with rfl | hn
  · rfl
  · exact isNaN_ofScientific hn false 0

theorem isNaN_ofInt (n : Int) : (ofInt n).isNaN = false := by
  unfold ofInt
  split
  · exact isNaN_neg (isNaN_ofNat _)
  · exact isNaN_ofNat _

theorem isNaN_ofDecimal (n : Nat) (e : Int) : (ofDecimal n e).isNaN = false := by
  unfold ofDecimal
  dsimp only
  split
  · rfl
  · rename_i h
    have hn : 0 < n := Nat.pos_of_ne_zero fun hz => h (Or.inl hz)
    split
    · rfl
    · split
      · exact isNaN_ofScientific hn true _
      · exact isNaN_ofScientific hn false _

end Workflow.Number
