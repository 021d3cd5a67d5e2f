import Mathlib.Algebra.Group.Nat.Defs
import Mathlib.Tactic.Common
import Workflow.Eval.Convert

/-! Whole numbers that doubles hold exactly: read from their digits, negated, and taken apart
again. -/
namespace Workflow.Number

open Float.Model Float.Model.UnpackedFloat

theorem log2_mul_two_pow {m : Nat} (hp : 0 < m) (j : Nat) : (m * 2 ^ j).log2 = m.log2 + j := by
  have hne : m * 2 ^ j ≠ 0 := Nat.ne_of_gt (Nat.mul_pos hp (Nat.two_pow_pos j))
  refine (Nat.log2_eq_iff hne).2 ⟨?_, ?_⟩
  · rw [Nat.pow_add]
    exact Nat.mul_le_mul_right _ (Nat.log2_self_le (Nat.ne_of_gt hp))
  · rw [Nat.add_right_comm, Nat.pow_add]
    exact Nat.mul_lt_mul_of_pos_right Nat.lt_log2_self (Nat.two_pow_pos j)

/-- A mantissa of full width, and an exponent that a double can have. -/
structure Normal (m : Nat) (e : Int) : Prop where
  low : 2 ^ 52 ≤ m
  high : m < 2 ^ 53
  bottom : -1074 ≤ e
  top : e ≤ 971

namespace Normal

variable {m : Nat} {e : Int}

theorem pos (h : Normal m e) : 0 < m :=
  Nat.lt_of_lt_of_le (Nat.two_pow_pos 52) h.low

theorem log2_eq (h : Normal m e) : m.log2 = 52 :=
  (Nat.log2_eq_iff (Nat.ne_of_gt h.pos)).2 ⟨h.low, h.high⟩

theorem log2_shifted (h : Normal m e) (j : Nat) : (m * 2 ^ j).log2 = 52 + j := by
  rw [log2_mul_two_pow h.pos, h.log2_eq]

end Normal

theorem targetExponent_eq (t : Int) :
    Format.binary64.targetExponent t = max (t - 53) (-1074) := by
  unfold Format.targetExponent
  rfl

/-- Shifting zeros out of a mantissa loses nothing. -/
theorem shift_exact (m j : Nat) :
    (ExtendedMantissa.mk (m * 2 ^ j) false false) >>> j = ExtendedMantissa.mk m false false := by
  show Nat.repeat ExtendedMantissa.shiftRightOne j _ = _
  suffices ∀ k ≤ j, Nat.repeat ExtendedMantissa.shiftRightOne k ⟨m * 2 ^ j, false, false⟩ =
      ⟨m * 2 ^ (j - k), false, false⟩ by
    rw [this j (Nat.le_refl j), Nat.sub_self, Nat.pow_zero, Nat.mul_one]
  intro k hk
  induction k with
  | zero => rfl
  | succ k ih =>
    have hpow : m * 2 ^ (j - k) = m * 2 ^ (j - (k + 1)) * 2 := by
      rw [Nat.mul_assoc, ← Nat.pow_succ]
      congr 2
      omega
    show ExtendedMantissa.shiftRightOne (Nat.repeat _ k _) = _
    rw [ih (by omega), hpow]
    unfold ExtendedMantissa.shiftRightOne
    rw [Nat.mul_div_cancel _ (by decide), Nat.mul_mod_left]
    rfl

/-- Rounding takes a mantissa with zeros behind it back to full width. -/
theorem shiftToTargetExponent_normal {m : Nat} {e : Int} (h : Normal m e) (j : Nat) :
    shiftToTargetExponent .binary64 (m * 2 ^ j) (e - j) .exact = (⟨m, false, false⟩, e) := by
  have hbottom := h.bottom
  have htarget : Format.binary64.targetExponent (totalExponent (m * 2 ^ j) (e - j)) = e := by
    rw [targetExponent_eq]
    unfold totalExponent
    rw [h.log2_shifted]
    push_cast
    omega
  have hshift : (e - (e - (j : Int))).toNat = j := by omega
  unfold shiftToTargetExponent
  dsimp only
  rw [htarget]
  unfold shiftToExponent
  dsimp only
  rw [hshift]
  refine Prod.ext (shift_exact m j) ?_
  dsimp only
  omega

theorem roundWithAccuracy_normal {m : Nat} {e : Int} (h : Normal m e) (sign : Sign) (j : Nat) :
    roundWithAccuracy .binary64 sign (m * 2 ^ j) (e - j) .exact = .finite sign m e h.pos := by
  -- what the first shift leaves is shifted by nothing
  have hfirst := shiftToTargetExponent_normal h j
  have hsecond : shiftToTargetExponent .binary64 m e .exact = (⟨m, false, false⟩, e) := by
    have h := shiftToTargetExponent_normal h 0
    rwa [Nat.pow_zero, Nat.mul_one, Int.natCast_zero, Int.sub_zero] at h
  unfold roundWithAccuracy
  rw [hfirst]
  dsimp only
  rw [show (ExtendedMantissa.mk m false false).roundedMantissa = m from rfl, hsecond]
  dsimp only
  rw [dif_neg (Nat.ne_of_gt h.pos)]

/-- The biased exponent of a normal double. -/
theorem Normal.field {m : Nat} {e : Int} (h : Normal m e) :
    ∃ k : Nat, 0 < k ∧ k < 2047 ∧ e = k - 1075 := by
  have hb := h.bottom
  have ht := h.top
  exact ⟨(e + 1075).toNat, by omega, by omega, by omega⟩

theorem pack_normal {m : Nat} {e : Int} (h : Normal m e) (sign : Sign) {k : Nat}
    (hk : e = k - 1075) :
    UnpackedFloat.pack .binary64 (.finite sign m e h.pos) =
      packComponents .binary64 sign (BitVec.ofNat 11 k) (BitVec.ofNat 52 m) := by
  have ht := h.top
  have hbiased : (e + Format.binary64.exponentBias + (52 : Nat)).toNat = k := by
    show (e + 1023 + 52).toNat = k
    omega
  unfold UnpackedFloat.pack
  dsimp only
  rw [hbiased, if_neg (by show ¬ 2 ^ 11 ≤ k + 1; omega), if_pos (by rw [h.log2_eq]; rfl)]

theorem toNat_packComponents (sign : Sign) (exponent : BitVec 11) (mantissa : BitVec 52) :
    (packComponents .binary64 sign exponent mantissa).toNat =
      (sign.toBitVec.toNat * 2 ^ 11 + exponent.toNat) * 2 ^ 52 + mantissa.toNat := by
  show (sign.toBitVec ++ exponent ++ mantissa).toNat = _
  rw [BitVec.toNat_append, BitVec.toNat_append, ← Nat.shiftLeft_add_eq_or_of_lt mantissa.isLt,
    ← Nat.shiftLeft_add_eq_or_of_lt exponent.isLt, Nat.shiftLeft_eq, Nat.shiftLeft_eq]

/-- The double `± m * 2 ^ e`. -/
def ofNormal {m : Nat} {e : Int} (h : Normal m e) (sign : Sign) : Float :=
  .ofModel (Float.Model.pack (.finite sign m e h.pos))

/-- A double taken apart by the three fields of its bits. -/
theorem parts_of_bits {x : Float} {s k f : Nat}
    (hx : x.toBits.toNat = (s * 2048 + k) * fractionBound + f) (hk : 0 < k) (hk' : k < 2047)
    (hf : f < fractionBound) :
    parts x = .finite (s = 1) (fractionBound + f) (k - 1075) := by
  unfold fractionBound at hx hf
  have hsign : x.toBits.toNat / 0x8000_0000_0000_0000 = s := by omega
  have hfield : x.toBits.toNat / fractionBound % 2048 = k := by
    unfold fractionBound
    omega
  have hfraction : x.toBits.toNat % fractionBound = f := by
    unfold fractionBound
    omega
  unfold parts
  dsimp only
  rw [hsign, hfield, hfraction, if_neg (Nat.ne_of_lt hk'), if_neg (Nat.ne_of_gt hk)]

def isNegative : Sign → Bool
  | .negative => true
  | .positive => false

theorem parts_ofNormal {m : Nat} {e : Int} (h : Normal m e) (sign : Sign) :
    parts (ofNormal h sign) = .finite (isNegative sign) m e := by
  obtain ⟨k, hk, hk', rfl⟩ := h.field
  obtain ⟨f, rfl⟩ := Nat.exists_eq_add_of_le h.low
  have hf : f < 2 ^ 52 := by
    have := h.high
    omega
  have hbits : (ofNormal h sign).toBits.toNat =
      (UnpackedFloat.pack .binary64 (.finite sign (2 ^ 52 + f) (k - 1075) h.pos)).toNat := rfl
  rw [pack_normal h sign rfl, toNat_packComponents, BitVec.toNat_ofNat, BitVec.toNat_ofNat,
    Nat.mod_eq_of_lt (by omega), Nat.add_mod_left, Nat.mod_eq_of_lt hf] at hbits
  cases sign with
  | positive => exact parts_of_bits hbits hk hk' hf
  | negative => exact parts_of_bits hbits hk hk' hf

theorem unpackSign_packComponents (sign : Sign) (exponent : BitVec 11) (mantissa : BitVec 52) :
    unpackSign (packComponents .binary64 sign exponent mantissa) = sign.toBitVec := by
  have hlt := exponent.isLt
  have hlt' := mantissa.isLt
  refine BitVec.eq_of_toNat_eq ?_
  unfold unpackSign
  rw [BitVec.toNat_cast, BitVec.extractLsb_toNat, toNat_packComponents, Nat.shiftRight_eq_div_pow]
  have := sign.toBitVec.isLt
  show _ / 2 ^ 63 % 2 ^ 1 = _
  omega

theorem finite_congr {sign sign' : Sign} {m m' : Nat} {e e' : Int} {h : 0 < m} {h' : 0 < m'}
    (hs : sign = sign') (hm : m = m') (he : e = e') :
    UnpackedFloat.finite sign m e h = .finite sign' m' e' h' := by
  subst hs hm he
  rfl

theorem unpack_pack_normal {m : Nat} {e : Int} (h : Normal m e) (sign : Sign) :
    (Float.Model.pack (.finite sign m e h.pos)).unpack = .finite sign m e h.pos := by
  obtain ⟨k, hk, hk', he⟩ := h.field
  have hlow := h.low
  have hhigh := h.high
  have hones : BitVec.ofNat 11 k ≠ -1#11 := by
    intro hn
    have := congrArg BitVec.toNat hn
    simp only [BitVec.toNat_ofNat] at this
    have hone : (-1#11 : BitVec 11).toNat = 2047 := by decide
    omega
  have hzero : BitVec.ofNat 11 k ≠ 0#11 := by
    intro hn
    have := congrArg BitVec.toNat hn
    simp only [BitVec.toNat_ofNat] at this
    omega
  have hsign : Sign.ofBitVec sign.toBitVec = sign := by
    cases sign
    all_goals rfl
  show UnpackedFloat.unpack .binary64 (UnpackedFloat.pack .binary64 _) = _
  rw [pack_normal h sign he]
  unfold UnpackedFloat.unpack
  dsimp only
  rw [unpackExponent_packComponents, if_neg hones, if_neg hzero]
  refine finite_congr ?_ ?_ ?_
  · rw [unpackSign_packComponents, hsign]
  · rw [unpackMantissa_packComponents, BitVec.toNat_append,
      ← Nat.shiftLeft_add_eq_or_of_lt (BitVec.isLt _), BitVec.toNat_ofNat, BitVec.toNat_ofNat,
      Nat.shiftLeft_eq]
    show 1 * 2 ^ 52 + m % 2 ^ 52 = m
    omega
  · rw [BitVec.toNat_ofNat, Nat.mod_eq_of_lt (by omega)]
    show (k : Int) - (1023 + 52) = e
    omega

theorem neg_ofNormal {m : Nat} {e : Int} (h : Normal m e) (sign : Sign) :
    -ofNormal h sign = ofNormal h (-sign) := by
  show Float.ofModel (Float.Model.pack
    (Float.Model.pack (.finite sign m e h.pos)).unpack.neg) = _
  rw [unpack_pack_normal h sign]
  rfl

/-- Multiplying by one leaves a double as it is. -/
theorem ofNormal_mul_one {m : Nat} {e : Int} (h : Normal m e) (sign : Sign) :
    ofNormal h sign * Float.ofBits 0x3FF0000000000000 = ofNormal h sign := by
  have hone : (Float.ofBits 0x3FF0000000000000).toModel.unpack =
      .finite .positive (2 ^ 52) (-52) (Nat.two_pow_pos 52) := rfl
  have hsign : sign * Sign.positive = sign := by
    cases sign
    all_goals rfl
  show Float.ofModel (Float.Model.pack (UnpackedFloat.mul .binary64
    (Float.Model.pack (.finite sign m e h.pos)).unpack
    (Float.ofBits 0x3FF0000000000000).toModel.unpack)) = _
  rw [unpack_pack_normal h sign, hone]
  show Float.ofModel (Float.Model.pack (roundWithAccuracy .binary64 (sign * .positive)
    (m * 2 ^ 52) (e - (52 : Nat)) .exact)) = _
  rw [roundWithAccuracy_normal h, hsign]
  rfl

/-- The mantissa of a whole number fills its width from below. -/
theorem normal_of_nat {n : Nat} (hp : 0 < n) (hn : n < 2 ^ 53) :
    Normal (n * 2 ^ (52 - n.log2)) (n.log2 - 52) := by
  have hlog : n.log2 < 53 := (Nat.log2_lt (Nat.ne_of_gt hp)).2 hn
  have hlow := Nat.log2_self_le (Nat.ne_of_gt hp)
  have hhigh := Nat.lt_log2_self (n := n)
  refine ⟨?_, ?_, by omega, by omega⟩
  · calc 2 ^ 52 = 2 ^ n.log2 * 2 ^ (52 - n.log2) := by
          rw [← Nat.pow_add, Nat.add_sub_cancel' (by omega)]
      _ ≤ n * 2 ^ (52 - n.log2) := Nat.mul_le_mul_right _ hlow
  · calc n * 2 ^ (52 - n.log2) < 2 ^ (n.log2 + 1) * 2 ^ (52 - n.log2) :=
          Nat.mul_lt_mul_of_pos_right hhigh (Nat.two_pow_pos _)
      _ = 2 ^ 53 := by
          rw [← Nat.pow_add]
          congr 1
          omega

/-- The double of a positive whole number. -/
theorem toFloat_toUInt64 {n : Nat} (hp : 0 < n) (hn : n < 2 ^ 53) :
    n.toUInt64.toFloat = ofNormal (normal_of_nat hp hn) .positive := by
  have h := normal_of_nat hp hn
  have hlog : n.log2 < 53 := (Nat.log2_lt (Nat.ne_of_gt hp)).2 hn
  have hmod : n.toUInt64.toNat = n := by
    show n % 2 ^ 64 = n
    omega
  have htarget : Format.binary64.targetExponent (totalExponent n 0) = n.log2 - 52 := by
    rw [targetExponent_eq]
    unfold totalExponent
    omega
  have hround : UnpackedFloat.round .binary64 .positive n 0 =
      .finite .positive (n * 2 ^ (52 - n.log2)) (n.log2 - 52) h.pos := by
    have hshift : (0 - ((n.log2 : Int) - 52)).toNat = 52 - n.log2 := by omega
    have hexponent : (0 : Int) - ((52 - n.log2 : Nat) : Int) = n.log2 - 52 := by omega
    unfold UnpackedFloat.round decreaseExponent
    dsimp only
    rw [htarget, hshift, hexponent, Nat.shiftLeft_eq]
    have hr := roundWithAccuracy_normal h .positive 0
    rwa [Nat.pow_zero, Nat.mul_one, Int.natCast_zero, Int.sub_zero] at hr
  show Float.ofModel (Float.Model.pack
    (UnpackedFloat.normalize .binary64 (n.toUInt64.toNat : Int) 0 .positive)) = _
  rw [hmod]
  unfold UnpackedFloat.normalize
  rw [show compare (n : Int) 0 = .gt from Int.compare_eq_gt.2 (by omega)]
  dsimp only
  rw [Int.toNat_natCast, hround]
  rfl

theorem ofNat_eq {n : Nat} (hp : 0 < n) (hn : n < 2 ^ 53) :
    Float.ofNat n = ofNormal (normal_of_nat hp hn) .positive := by
  show Float.ofScientific n false 0 = _
  unfold Float.ofScientific
  -- the short way: the digits are a word below `2 ^ 53`, and the scale is one
  rw [dif_pos ⟨hn, by decide⟩]
  show n.toUInt64.toFloat * Float.ofBits 0x3FF0000000000000 = _
  rw [toFloat_toUInt64 hp hn, ofNormal_mul_one]

theorem ofDecimal_eq {n : Nat} (hp : 0 < n) (hn : n < 2 ^ 53) :
    ofDecimal n 0 = ofNormal (normal_of_nat hp hn) .positive := by
  have hlength : (Nat.toDigits 10 n).length ≤ 16 :=
    (Nat.length_toDigits_le_iff (by decide) (by decide)).2 (by omega)
  unfold ofDecimal
  dsimp only
  rw [if_neg (by omega), if_neg (by omega), if_neg (by decide)]
  exact ofNat_eq hp hn

/-- Nothing is left over behind the point of a whole number. -/
theorem wholePart_of_nat {n : Nat} (hn : n < 2 ^ 53) :
    wholePart (n * 2 ^ (52 - n.log2)) (n.log2 - 52) = (n, false) := by
  have hlog : n.log2 ≤ 52 := by
    by_cases hp : n = 0
    · subst hp
      decide
    · exact Nat.le_of_lt_succ ((Nat.log2_lt hp).2 hn)
  unfold wholePart
  -- only numbers of full width have no digits behind the point
  by_cases h : (0 : Int) ≤ n.log2 - 52
  · have hz : 52 - n.log2 = 0 := by omega
    have hz' : ((n.log2 : Int) - 52).toNat = 0 := by omega
    rw [if_pos h, hz, hz', Nat.pow_zero, Nat.mul_one]
    exact congrArg (·, false) (Nat.mul_one n)
  · have hexponent : (-((n.log2 : Int) - 52)).toNat = 52 - n.log2 := by omega
    rw [if_neg h, hexponent]
    show (n * 2 ^ _ / 2 ^ _, _) = _
    rw [Nat.mul_div_cancel _ (Nat.two_pow_pos _)]
    refine Prod.ext rfl ?_
    show decide (n * 2 ^ (52 - n.log2) % 2 ^ (52 - n.log2) ≠ 0) = false
    rw [Nat.mul_mod_left]
    rfl

theorem wholePart_zero (e : Int) : wholePart 0 e = (0, false) := by
  unfold wholePart
  dsimp only
  split
  · rw [Nat.zero_mul]
  · rw [Nat.zero_div, Nat.zero_mod]
    rfl

open Eval.Value

theorem numberToJson_zero : numberToJson (ofDecimal 0 0) = .ofInt 0 := by
  have hp : parts (ofDecimal 0 0) = .finite false 0 (-1074) := rfl
  unfold numberToJson
  rw [hp]
  dsimp only
  rw [wholePart_zero]
  rfl

theorem numberToJson_ofNormal {n : Nat} (hp : 0 < n) (hn : n ≤ maxSafe) (sign : Sign) :
    numberToJson (ofNormal (normal_of_nat hp (Nat.lt_succ_of_le hn)) sign) =
      .ofInt (signed (isNegative sign) n) := by
  unfold numberToJson
  rw [parts_ofNormal]
  dsimp only
  rw [wholePart_of_nat (Nat.lt_succ_of_le hn)]
  dsimp only
  rw [if_pos hn]

/-- A safe whole number is read from its digits and written as JSON without loss. -/
theorem numberToJson_ofDecimal {n : Nat} (hn : n ≤ maxSafe) :
    numberToJson (ofDecimal n 0) = .ofInt n := by
  rcases Nat.eq_zero_or_pos n with rfl | hp
  · exact numberToJson_zero
  · rw [ofDecimal_eq hp (Nat.lt_succ_of_le hn)]
    exact numberToJson_ofNormal hp hn .positive

/-- So is its negation. -/
theorem numberToJson_neg_ofDecimal {n : Nat} (hp : 0 < n) (hn : n ≤ maxSafe) :
    numberToJson (-ofDecimal n 0) = .ofInt (-n) := by
  rw [ofDecimal_eq hp (Nat.lt_succ_of_le hn), neg_ofNormal]
  exact numberToJson_ofNormal hp hn .negative

end Workflow.Number
