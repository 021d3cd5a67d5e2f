import Workflow.Proofs.Number.Order

/-! Counts as doubles. Those that doubles hold exactly are not changed by rounding, their sums are
exact, and all counts compare with them as numbers. Rounding takes the others to some other count or
to infinity, above all those that doubles hold exactly. -/
namespace Workflow.Number

open Float.Model Float.Model.UnpackedFloat

theorem mantissa_shiftRight (em : ExtendedMantissa) (j : Nat) :
    (em >>> j).mantissa = em.mantissa / 2 ^ j := by
  show (Nat.repeat ExtendedMantissa.shiftRightOne j em).mantissa = _
  induction j with
  | zero => exact (Nat.div_one _).symm
  | succ j ih =>
    show (Nat.repeat ExtendedMantissa.shiftRightOne j em).mantissa / 2 = _
    rw [ih, Nat.div_div_eq_div_mul, Nat.pow_succ]

theorem le_roundedMantissa (em : ExtendedMantissa) : em.mantissa ≤ em.roundedMantissa := by
  unfold ExtendedMantissa.roundedMantissa Accuracy.roundToNearestEven
  split
  · exact Nat.le_refl _
  · exact Nat.le_refl _
  · exact Nat.le_add_right _ _
  · exact Nat.le_add_right _ _

/-- A mantissa of at least full width is shifted to full width. -/
theorem shiftToTargetExponent_wide {m : Nat} {e : Int} (hm : 2 ^ 52 ≤ m) (he : -1074 ≤ e) :
    ∃ em, shiftToTargetExponent .binary64 m e .exact = (em, e + (m.log2 - 52 : Nat)) ∧
      2 ^ 52 ≤ em.mantissa ∧ em.mantissa < 2 ^ 53 := by
  have hne : m ≠ 0 := Nat.ne_of_gt (Nat.lt_of_lt_of_le (Nat.two_pow_pos 52) hm)
  have hlog : 52 ≤ m.log2 := (Nat.le_log2 hne).2 hm
  have htarget : Format.binary64.targetExponent (totalExponent m e) = e + (m.log2 - 52 : Nat) := by
    rw [targetExponent_eq]
    unfold totalExponent
    omega
  have hshift : (e + (m.log2 - 52 : Nat) - e).toNat = m.log2 - 52 := by omega
  have hlow : 2 ^ m.log2 = 2 ^ 52 * 2 ^ (m.log2 - 52) := by
    rw [← Nat.pow_add, Nat.add_sub_cancel' hlog]
  have hhigh : 2 ^ (m.log2 + 1) = 2 ^ 53 * 2 ^ (m.log2 - 52) := by
    rw [← Nat.pow_add]
    congr 1
    omega
  refine ⟨ExtendedMantissa.mk m false false >>> (m.log2 - 52), ?_, ?_, ?_⟩
  · unfold shiftToTargetExponent
    dsimp only
    rw [htarget]
    unfold shiftToExponent
    dsimp only
    rw [hshift]
    rfl
  · rw [mantissa_shiftRight, Nat.le_div_iff_mul_le (Nat.two_pow_pos _), ← hlow]
    exact Nat.log2_self_le hne
  · rw [mantissa_shiftRight, Nat.div_lt_iff_lt_mul (Nat.two_pow_pos _), ← hhigh]
    exact Nat.lt_log2_self

/-- Rounding leaves a mantissa of full width. -/
theorem roundWithAccuracy_wide {m : Nat} {e : Int} (hm : 2 ^ 52 ≤ m) (he : -1074 ≤ e)
    (sign : Sign) : ∃ (m' : Nat) (e' : Int) (hpos : 0 < m'),
      roundWithAccuracy .binary64 sign m e .exact = .finite sign m' e' hpos ∧
        2 ^ 52 ≤ m' ∧ m' < 2 ^ 53 ∧ e + (m.log2 - 52 : Nat) ≤ e' := by
  obtain ⟨em, hfirst, hlow, -⟩ := shiftToTargetExponent_wide hm he
  -- rounding up can make the mantissa one bit too wide, so that it is shifted again
  have hrounded : 2 ^ 52 ≤ em.roundedMantissa := Nat.le_trans hlow (le_roundedMantissa em)
  obtain ⟨em', hsecond, hlow', hhigh'⟩ :=
    shiftToTargetExponent_wide (e := e + (m.log2 - 52 : Nat)) hrounded (by omega)
  have hpos : 0 < em'.mantissa := Nat.lt_of_lt_of_le (Nat.two_pow_pos 52) hlow'
  refine ⟨em'.mantissa, e + (m.log2 - 52 : Nat) + (em.roundedMantissa.log2 - 52 : Nat), hpos, ?_,
    hlow', hhigh', by omega⟩
  unfold roundWithAccuracy
  rw [hfirst]
  dsimp only
  rw [hsecond]
  dsimp only
  rw [dif_neg (Nat.ne_of_gt hpos)]

theorem unpack_pack_infinity {m : Nat} {e : Int} (hpos : 0 < m) (he : 971 < e) (sign : Sign) :
    (Float.Model.pack (.finite sign m e hpos)).unpack = .infinity sign := by
  have hpack : UnpackedFloat.pack .binary64 (.finite sign m e hpos) =
      packComponents .binary64 sign (-1#11) 0#52 := by
    have hover : 2 ^ 11 ≤ (e + Format.binary64.exponentBias + (52 : Nat)).toNat + 1 := by
      show 2 ^ 11 ≤ (e + 1023 + 52).toNat + 1
      omega
    unfold UnpackedFloat.pack
    dsimp only
    rw [if_pos hover]
    rfl
  have hsign : Sign.ofBitVec sign.toBitVec = sign := by
    cases sign
    all_goals rfl
  have hones : (-1#11 : BitVec 11) = -1#11 := rfl
  have hzero : (0#52 : BitVec 52) = 0#52 := rfl
  show UnpackedFloat.unpack .binary64 (UnpackedFloat.pack .binary64 _) = _
  rw [hpack]
  unfold UnpackedFloat.unpack
  dsimp only
  rw [unpackExponent_packComponents, if_pos hones, unpackMantissa_packComponents, if_pos hzero,
    unpackSign_packComponents, hsign]

/-- The exponent of a count beyond those that doubles hold exactly is above theirs. -/
theorem unpack_ofNat_large {n : Nat} (hn : maxSafe < n) :
    (Float.ofNat n).toModel.unpack = .infinity .positive ∨
      ∃ (m : Nat) (e : Int) (hpos : 0 < m),
        (Float.ofNat n).toModel.unpack = .finite .positive m e hpos ∧ 0 < e := by
  have hlt : 2 ^ 53 ≤ n := hn
  have hne : n ≠ 0 := Nat.ne_of_gt (Nat.lt_of_lt_of_le (Nat.two_pow_pos 53) hlt)
  have hwide : 2 ^ 52 ≤ n <<< 53 * 10 ^ 0 := by
    rw [Nat.shiftLeft_eq]
    omega
  obtain ⟨m, e, hpos, hround, hlow, hhigh, he⟩ :=
    roundWithAccuracy_wide hwide (e := -53 + 0) (by decide) .positive
  have hlog : 106 ≤ (n <<< 53 * 10 ^ 0).log2 := by
    rw [Nat.le_log2 (by omega), Nat.shiftLeft_eq]
    omega
  have hbottom : -((2 : Int) ^ Format.binary64.exponentBits + n.log2) ≤ 0 := by
    show -((2 : Int) ^ 11 + n.log2) ≤ 0
    omega
  have hofNat : Float.ofNat n = Float.ofModel (Float.Model.pack (.finite .positive m e hpos)) := by
    show Float.ofScientific n false 0 = _
    unfold Float.ofScientific
    rw [dif_neg (by omega)]
    show Float.ofModel (Float.Model.pack (UnpackedFloat.ofScientific .binary64 n 0)) = _
    unfold UnpackedFloat.ofScientific
    rw [dif_neg hne, if_neg (by decide), if_neg (Int.not_lt.2 hbottom), if_pos (Int.le_refl 0)]
    exact congrArg (fun u => Float.ofModel (Float.Model.pack u)) hround
  rw [hofNat]
  show (Float.Model.pack (.finite .positive m e hpos)).unpack = _ ∨ _
  by_cases htop : e ≤ 971
  · have hnormal : Normal m e := ⟨hlow, hhigh, by omega, htop⟩
    exact Or.inr ⟨m, e, hpos, unpack_pack_normal hnormal .positive, by omega⟩
  · exact Or.inl (unpack_pack_infinity hpos (Int.not_le.1 htop) .positive)

section

variable {n : Nat}

theorem unpack_ofNat (hp : 0 < n) (hn : n ≤ maxSafe) : (Float.ofNat n).toModel.unpack =
    .finite .positive (n * 2 ^ (52 - n.log2)) (n.log2 - 52)
      (normal_of_nat hp (Nat.lt_succ_of_le hn)).pos := by
  rw [ofNat_eq hp (Nat.lt_succ_of_le hn)]
  exact unpack_pack_normal (normal_of_nat hp (Nat.lt_succ_of_le hn)) .positive

/-- A count has no fraction. -/
theorem parts_ofNat (hn : n ≤ maxSafe) :
    ∃ m e, parts (Float.ofNat n) = .finite false m e ∧ wholePart m e = (n, false) := by
  have hlt : n < 2 ^ 53 := Nat.lt_succ_of_le hn
  rcases Nat.eq_zero_or_pos n with rfl | hp
  · exact ⟨0, -1074, rfl, wholePart_zero _⟩
  · refine ⟨_, _, ?_, wholePart_of_nat hlt⟩
    rw [ofNat_eq hp hlt]
    exact parts_ofNormal _ _

theorem clampNat_ofNat (hn : n ≤ maxSafe) (bound : Nat) :
    clampNat bound (Float.ofNat n) = min n bound := by
  obtain ⟨m, e, hparts, hwhole⟩ := parts_ofNat hn
  unfold clampNat
  rw [hparts]
  show min (wholePart m e).1 bound = _
  rw [hwhole]

theorem truncate_ofNat (hn : n ≤ maxSafe) : truncate (Float.ofNat n) = Float.ofNat n := by
  obtain ⟨m, e, hparts, hwhole⟩ := parts_ofNat hn
  unfold truncate roundWith
  rw [hparts]
  dsimp only
  rw [hwhole]

theorem not_ofNat_lt_zero (hn : n ≤ maxSafe) : ¬ Float.ofNat n < 0.0 := by
  have hzero : (0.0 : Float).toModel.unpack = .zero .positive := rfl
  rw [lt_iff, hzero]
  rcases Nat.eq_zero_or_pos n with rfl | hp
  · nofun
  · rw [unpack_ofNat hp hn]
    nofun

theorem ofInt_natCast (n : Nat) : ofInt n = Float.ofNat n := by
  unfold ofInt
  rw [if_neg (Int.not_lt.2 (Int.natCast_nonneg n)), Int.natAbs_natCast]

theorem numberOrder?_ofNat_large {m : Nat} (hm : maxSafe < m) (hn : n ≤ maxSafe) :
    Eval.Value.numberOrder? (Float.ofNat m) (Float.ofNat n) = some .gt := by
  rw [numberOrder?_eq]
  rcases unpack_ofNat_large hm with hx | ⟨_, e, _, hx, he⟩
  · rw [hx]
    rcases Nat.eq_zero_or_pos n with rfl | hp
    · rfl
    · rw [unpack_ofNat hp hn]
      rfl
  · rw [hx]
    rcases Nat.eq_zero_or_pos n with rfl | hp
    · rfl
    · have hlog : n.log2 < 53 := (Nat.log2_lt (Nat.ne_of_gt hp)).2 (Nat.lt_succ_of_le hn)
      rw [unpack_ofNat hp hn]
      show some ((compare e (n.log2 - 52)).then _) = some .gt
      rw [Int.compare_eq_gt.2 (by omega)]
      rfl

theorem numberOrder?_ofNat (m : Nat) (hn : n ≤ maxSafe) :
    Eval.Value.numberOrder? (Float.ofNat m) (Float.ofNat n) = some (compare (m : Int) n) := by
  by_cases hm : m ≤ maxSafe
  · rw [← ofInt_natCast, ← ofInt_natCast]
    exact numberOrder?_ofInt (by rwa [Int.natAbs_natCast]) (by rwa [Int.natAbs_natCast])
  · rw [numberOrder?_ofNat_large (Nat.not_le.1 hm) hn, Int.compare_eq_gt.2 (by omega)]

end

theorem round_normal {m : Nat} {e : Int} (h : Normal m e) (sign : Sign) (j : Nat) :
    UnpackedFloat.round .binary64 sign (m * 2 ^ j) (e - j) = .finite sign m e h.pos := by
  have hbottom := h.bottom
  have htarget : Format.binary64.targetExponent (totalExponent (m * 2 ^ j) (e - j)) = e := by
    rw [targetExponent_eq]
    unfold totalExponent
    rw [h.log2_shifted]
    push_cast
    omega
  have hshift : (e - (j : Int) - e).toNat = 0 := by omega
  unfold UnpackedFloat.round decreaseExponent
  dsimp only
  rw [htarget, hshift, Nat.shiftLeft_zero, Int.natCast_zero, Int.sub_zero]
  exact roundWithAccuracy_normal h sign j

/-- The mantissa of a count, brought to a smaller exponent. -/
theorem shiftLeft_mantissa {n k : Nat} (hk : k ≤ n.log2) (hn : n.log2 ≤ 52) :
    (n * 2 ^ (52 - n.log2)) <<< ((n.log2 : Int) - 52 - (k - 52)).toNat = n * 2 ^ (52 - k) := by
  have hshift : ((n.log2 : Int) - 52 - (k - 52)).toNat = n.log2 - k := by omega
  rw [hshift, Nat.shiftLeft_eq, Nat.mul_assoc, ← Nat.pow_add]
  congr 2
  omega

theorem add_unpack_ofNat {a b : Nat} (ha : 0 < a) (hb : 0 < b) (h : a + b ≤ maxSafe) :
    UnpackedFloat.add .binary64 (Float.ofNat a).toModel.unpack (Float.ofNat b).toModel.unpack =
      (Float.ofNat (a + b)).toModel.unpack := by
  have hlog {n : Nat} (hp : 0 < n) (hn : n ≤ a + b) : n.log2 ≤ 52 :=
    Nat.le_of_lt_succ ((Nat.log2_lt (Nat.ne_of_gt hp)).2 (by unfold maxSafe at h; omega))
  have hloga := hlog ha (Nat.le_add_right a b)
  have hlogb := hlog hb (Nat.le_add_left b a)
  have hlogsum := hlog (Nat.add_pos_left ha b) (Nat.le_refl _)
  obtain ⟨k, hk⟩ : ∃ k, k = min a.log2 b.log2 := ⟨_, rfl⟩
  have hmin : min ((a.log2 : Int) - 52) (b.log2 - 52) = k - 52 := by omega
  have hle : k ≤ (a + b).log2 := by
    have hmono : a.log2 ≤ (a + b).log2 := by
      rw [Nat.le_log2 (by omega)]
      exact Nat.le_trans (Nat.log2_self_le (Nat.ne_of_gt ha)) (Nat.le_add_right a b)
    omega
  have hsum : a * 2 ^ (52 - k) + b * 2 ^ (52 - k) =
      (a + b) * 2 ^ (52 - (a + b).log2) * 2 ^ ((a + b).log2 - k) := by
    rw [← Nat.add_mul, Nat.mul_assoc, ← Nat.pow_add]
    congr 2
    omega
  have hexponent : (k : Int) - 52 =
      (a + b).log2 - 52 - (((a + b).log2 - k : Nat) : Int) := by omega
  have hpos : 0 < (a + b) * 2 ^ (52 - (a + b).log2) * 2 ^ ((a + b).log2 - k) :=
    Nat.mul_pos (Nat.mul_pos (Nat.add_pos_left ha b) (Nat.two_pow_pos _)) (Nat.two_pow_pos _)
  rw [unpack_ofNat ha (by omega), unpack_ofNat hb (by omega),
    unpack_ofNat (Nat.add_pos_left ha b) h]
  show UnpackedFloat.normalize .binary64
    ((((a * 2 ^ (52 - a.log2)) <<<
        ((a.log2 : Int) - 52 - min (_ - 52) (_ - 52)).toNat : Nat) : Int) +
      ((b * 2 ^ (52 - b.log2)) <<< ((b.log2 : Int) - 52 - min (_ - 52) (_ - 52)).toNat : Nat))
    (min (_ - 52) (_ - 52)) .positive = _
  rw [hmin, shiftLeft_mantissa (by omega) hloga, shiftLeft_mantissa (by omega) hlogb,
    ← Int.natCast_add, hsum]
  unfold UnpackedFloat.normalize
  rw [Int.compare_eq_gt.2 (by exact_mod_cast hpos)]
  dsimp only
  rw [Int.toNat_natCast, hexponent]
  exact round_normal (normal_of_nat (Nat.add_pos_left ha b) (Nat.lt_succ_of_le h)) .positive _

/-- The sum of two counts is exact. -/
theorem ofNat_add {a b : Nat} (h : a + b ≤ maxSafe) :
    Float.ofNat a + Float.ofNat b = Float.ofNat (a + b) := by
  have hzero : (Float.ofNat 0).toModel.unpack = .zero .positive := rfl
  have hadd : Float.ofNat a + Float.ofNat b = Float.ofModel (Float.Model.pack
    (UnpackedFloat.add .binary64 (Float.ofNat a).toModel.unpack
      (Float.ofNat b).toModel.unpack)) := rfl
  have hpack {n : Nat} (hp : 0 < n) (hn : n ≤ maxSafe) :
      Float.ofModel (Float.Model.pack (Float.ofNat n).toModel.unpack) = Float.ofNat n := by
    rw [unpack_ofNat hp hn, ofNat_eq hp (Nat.lt_succ_of_le hn)]
    rfl
  rw [hadd]
  rcases Nat.eq_zero_or_pos a with rfl | ha
  · rcases Nat.eq_zero_or_pos b with rfl | hb
    · rfl
    · rw [Nat.zero_add] at h ⊢
      refine Eq.trans ?_ (hpack hb h)
      rw [hzero, unpack_ofNat hb h]
      rfl
  · rcases Nat.eq_zero_or_pos b with rfl | hb
    · rw [Nat.add_zero] at h ⊢
      refine Eq.trans ?_ (hpack ha h)
      rw [hzero, unpack_ofNat ha h]
      rfl
    · rw [add_unpack_ofNat ha hb h]
      exact hpack (Nat.add_pos_left ha b) h

end Workflow.Number
