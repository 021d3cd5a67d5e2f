import Workflow.Proofs.Number.Count

/-! Whole numbers as doubles, with either sign: as long as the results are small enough, sums and
products of such doubles are exact. -/
namespace Workflow.Number

open Float.Model Float.Model.UnpackedFloat

/-- The double of a whole number that doubles hold exactly. Zero has two of them. -/
inductive Holds : Float → Int → Prop
  | zero : Holds 0.0 0
  | negativeZero : Holds (-0.0) 0
  | whole (sign : Sign) {k : Nat} (hp : 0 < k) (hk : k < 2 ^ 53) :
    Holds (ofNormal (normal_of_nat hp hk) sign) (sign.apply k)

theorem natAbs_apply (sign : Sign) (k : Nat) : (sign.apply k).natAbs = k := by
  cases sign with
  | positive => exact Int.natAbs_natCast k
  | negative => exact (Int.natAbs_neg k).trans (Int.natAbs_natCast k)

/-- The unpacked form of the double of a whole number. -/
inductive Unpacks : UnpackedFloat → Int → Prop
  | zero (sign : Sign) : Unpacks (.zero sign) 0
  | whole (sign : Sign) {k : Nat} (hp : 0 < k) (hk : k < 2 ^ 53) :
    Unpacks (.finite sign (k * 2 ^ (52 - k.log2)) (k.log2 - 52) (normal_of_nat hp hk).pos)
      (sign.apply k)

theorem Holds.unpacks {x : Float} {n : Int} (h : Holds x n) : Unpacks x.toModel.unpack n := by
  cases h with
  | zero => exact .zero .positive
  | negativeZero => exact .zero .negative
  | whole sign hp hk =>
    have hunpack := unpack_pack_normal (normal_of_nat hp hk) sign
    show Unpacks (Float.Model.pack (.finite sign _ _ _)).unpack _
    rw [hunpack]
    exact .whole sign hp hk

theorem Unpacks.holds {u : UnpackedFloat} {n : Int} (h : Unpacks u n) :
    Holds (.ofModel (Float.Model.pack u)) n := by
  cases h with
  | zero sign =>
    cases sign with
    | positive => exact .zero
    | negative => exact .negativeZero
  | whole sign hp hk => exact .whole sign hp hk

/-- A whole number with zeros behind it is rounded to itself, with as many zeros as it takes. -/
theorem round_shifted {c : Nat} (hp : 0 < c) (hc : c < 2 ^ 53) (sign : Sign) (j : Nat) :
    UnpackedFloat.round .binary64 sign (c * 2 ^ j) (-j) =
      .finite sign (c * 2 ^ (52 - c.log2)) (c.log2 - 52) (normal_of_nat hp hc).pos := by
  have hn := normal_of_nat hp hc
  have hlog : c.log2 < 53 := (Nat.log2_lt (Nat.ne_of_gt hp)).2 hc
  by_cases hj : 52 - c.log2 ≤ j
  · obtain ⟨i, rfl⟩ := Nat.exists_eq_add_of_le hj
    have hexponent : -((52 - c.log2 + i : Nat) : Int) = (c.log2 : Int) - 52 - i := by omega
    rw [Nat.pow_add, ← Nat.mul_assoc, hexponent]
    exact round_normal hn sign i
  · -- the mantissa is too short, and is brought to full width first
    obtain ⟨i, hi⟩ := Nat.exists_eq_add_of_le (Nat.le_of_not_le hj)
    have htarget : Format.binary64.targetExponent (totalExponent (c * 2 ^ j) (-j)) =
        c.log2 - 52 := by
      rw [targetExponent_eq]
      unfold totalExponent
      rw [log2_mul_two_pow hp]
      push_cast
      omega
    have hshift : (-(j : Int) - ((c.log2 : Int) - 52)).toNat = i := by omega
    have hexponent : -(j : Int) - (i : Int) = c.log2 - 52 := by omega
    have hmantissa : (c * 2 ^ j) <<< i = c * 2 ^ (52 - c.log2) := by
      rw [Nat.shiftLeft_eq, Nat.mul_assoc, ← Nat.pow_add, ← hi]
    have hround := roundWithAccuracy_normal hn sign 0
    rw [Nat.pow_zero, Nat.mul_one, Int.natCast_zero, Int.sub_zero] at hround
    unfold UnpackedFloat.round decreaseExponent
    dsimp only
    rw [htarget, hshift, hmantissa, hexponent, hround]

theorem normalize_shifted {c : Int} (hc : c.natAbs ≤ maxSafe) (j : Nat) :
    Unpacks (UnpackedFloat.normalize .binary64 (c * (2 ^ j : Nat)) (-j) .positive) c := by
  have hpow : 0 < ((2 ^ j : Nat) : Int) := by exact_mod_cast Nat.two_pow_pos j
  have hlt : c.natAbs < 2 ^ 53 := Nat.lt_succ_of_le hc
  unfold UnpackedFloat.normalize
  rcases Int.lt_trichotomy c 0 with hneg | rfl | hpos
  · have hk : 0 < c.natAbs := Int.natAbs_pos.2 (Int.ne_of_lt hneg)
    have hsign : c = Sign.negative.apply c.natAbs := by
      show c = -(c.natAbs : Int)
      omega
    have hmantissa : (-(c * (2 ^ j : Nat))).toNat = c.natAbs * 2 ^ j := by
      rw [← Int.neg_mul, show -c = (c.natAbs : Int) by omega, ← Int.natCast_mul, Int.toNat_natCast]
    rw [Int.compare_eq_lt.2 (Int.mul_neg_of_neg_of_pos hneg hpow)]
    dsimp only
    rw [hmantissa, round_shifted hk hlt]
    conv => rhs; rw [hsign]
    exact .whole .negative hk hlt
  · rw [Int.zero_mul, Int.compare_eq_eq.2 rfl]
    exact .zero .positive
  · have hk : 0 < c.natAbs := Int.natAbs_pos.2 (Int.ne_of_gt hpos)
    have hsign : c = Sign.positive.apply c.natAbs := by
      show c = (c.natAbs : Int)
      omega
    have hmantissa : (c * (2 ^ j : Nat)).toNat = c.natAbs * 2 ^ j := by
      rw [show c = (c.natAbs : Int) by omega, ← Int.natCast_mul, Int.toNat_natCast]
      rfl
    rw [Int.compare_eq_gt.2 (Int.mul_pos hpos hpow)]
    dsimp only
    rw [hmantissa, round_shifted hk hlt]
    conv => rhs; rw [hsign]
    exact .whole .positive hk hlt

theorem apply_mul (sign : Sign) (m n : Int) : sign.apply m * n = sign.apply (m * n) := by
  cases sign with
  | positive => rfl
  | negative => exact Int.neg_mul m n

theorem Unpacks.add {u v : UnpackedFloat} {a b : Int} (hu : Unpacks u a) (hv : Unpacks v b)
    (h : (a + b).natAbs ≤ maxSafe) : Unpacks (u.add .binary64 v) (a + b) := by
  cases hu with
  | zero s =>
    cases hv with
    | zero s' => cases s <;> cases s' <;> exact .zero _
    | whole s' hp hk =>
      rw [Int.zero_add]
      exact .whole s' hp hk
  | @whole s k hp hk =>
    cases hv with
    | zero s' =>
      rw [Int.add_zero]
      exact .whole s hp hk
    | @whole s' l hp' hl =>
      have hlogk : k.log2 < 53 := (Nat.log2_lt (Nat.ne_of_gt hp)).2 hk
      have hlogl : l.log2 < 53 := (Nat.log2_lt (Nat.ne_of_gt hp')).2 hl
      -- both mantissas are brought to the exponent of the smaller number
      obtain ⟨i, hi⟩ : ∃ i, i = min k.log2 l.log2 := ⟨_, rfl⟩
      have hmin : min ((k.log2 : Int) - 52) (l.log2 - 52) = -((52 - i : Nat) : Int) := by omega
      have hsum : s.apply ((k * 2 ^ (52 - i) : Nat) : Int) +
          s'.apply ((l * 2 ^ (52 - i) : Nat) : Int) =
            (s.apply k + s'.apply l) * (2 ^ (52 - i) : Nat) := by
        rw [Int.add_mul, apply_mul, apply_mul, Int.natCast_mul, Int.natCast_mul]
      have hexponent : -((52 - i : Nat) : Int) = i - 52 := by omega
      show Unpacks (UnpackedFloat.normalize .binary64
        (s.apply ((k * 2 ^ (52 - k.log2)) <<<
            ((k.log2 : Int) - 52 - min (_ - 52) (_ - 52)).toNat : Nat) +
          s'.apply ((l * 2 ^ (52 - l.log2)) <<<
            ((l.log2 : Int) - 52 - min (_ - 52) (_ - 52)).toNat : Nat))
        (min (_ - 52) (_ - 52)) .positive) _
      rw [hmin, hexponent, shiftLeft_mantissa (by omega) (by omega),
        shiftLeft_mantissa (by omega) (by omega), hsum, ← hexponent]
      exact normalize_shifted h _

theorem Holds.add {x y : Float} {a b : Int} (hx : Holds x a) (hy : Holds y b)
    (h : (a + b).natAbs ≤ maxSafe) : Holds (x + y) (a + b) :=
  (hx.unpacks.add hy.unpacks h).holds

theorem apply_mul_apply (s s' : Sign) (m n : Nat) :
    s.apply m * s'.apply n = (s * s').apply ((m * n : Nat) : Int) := by
  rw [apply_mul, Int.natCast_mul]
  cases s' with
  | positive => cases s <;> rfl
  | negative =>
    have hneg : (m : Int) * Sign.negative.apply n = -((m : Int) * n) := Int.mul_neg _ _
    rw [hneg]
    cases s with
    | positive => rfl
    | negative => exact Int.neg_neg _

theorem Unpacks.mul {u v : UnpackedFloat} {a b : Int} (hu : Unpacks u a) (hv : Unpacks v b)
    (h : (a * b).natAbs ≤ maxSafe) : Unpacks (u.mul .binary64 v) (a * b) := by
  cases hu with
  | zero s =>
    rw [Int.zero_mul]
    cases hv with
    | zero s' => exact .zero _
    | whole s' hp hk => exact .zero _
  | @whole s k hp hk =>
    cases hv with
    | zero s' =>
      rw [Int.mul_zero]
      exact .zero _
    | @whole s' l hp' hl =>
      have hpos : 0 < k * l := Nat.mul_pos hp hp'
      rw [apply_mul_apply] at h ⊢
      have hlt : k * l < 2 ^ 53 := by
        rw [natAbs_apply] at h
        exact Nat.lt_succ_of_le h
      have hlogk : k.log2 < 53 := (Nat.log2_lt (Nat.ne_of_gt hp)).2 hk
      have hlogl : l.log2 < 53 := (Nat.log2_lt (Nat.ne_of_gt hp')).2 hl
      have hlog : (k * l).log2 < 53 := (Nat.log2_lt (Nat.ne_of_gt hpos)).2 hlt
      have hlow : k.log2 + l.log2 ≤ (k * l).log2 := by
        rw [Nat.le_log2 (Nat.ne_of_gt hpos), Nat.pow_add]
        exact Nat.mul_le_mul (Nat.log2_self_le (Nat.ne_of_gt hp))
          (Nat.log2_self_le (Nat.ne_of_gt hp'))
      -- the zeros behind the mantissas of the two are more than those behind the one of the product
      obtain ⟨j, hj⟩ : ∃ j, 104 - k.log2 - l.log2 = 52 - (k * l).log2 + j :=
        ⟨52 + (k * l).log2 - k.log2 - l.log2, by omega⟩
      have hmantissa : k * 2 ^ (52 - k.log2) * (l * 2 ^ (52 - l.log2)) =
          k * l * 2 ^ (52 - (k * l).log2) * 2 ^ j := by
        have hzeros : 52 - k.log2 + (52 - l.log2) = 52 - (k * l).log2 + j := by omega
        rw [Nat.mul_mul_mul_comm, ← Nat.pow_add, hzeros, Nat.pow_add, ← Nat.mul_assoc]
      have hexponent : (k.log2 : Int) - 52 + (l.log2 - 52) = (k * l).log2 - 52 - j := by omega
      show Unpacks (roundWithAccuracy .binary64 (s * s')
        (k * 2 ^ (52 - k.log2) * (l * 2 ^ (52 - l.log2)))
        ((k.log2 : Int) - 52 + (l.log2 - 52)) .exact) _
      rw [hmantissa, hexponent, roundWithAccuracy_normal (normal_of_nat hpos hlt)]
      exact .whole _ hpos hlt

theorem Holds.mul {x y : Float} {a b : Int} (hx : Holds x a) (hy : Holds y b)
    (h : (a * b).natAbs ≤ maxSafe) : Holds (x * y) (a * b) :=
  (hx.unpacks.mul hy.unpacks h).holds

theorem holds_ofNat {k : Nat} (hk : k ≤ maxSafe) : Holds (Float.ofNat k) k := by
  rcases Nat.eq_zero_or_pos k with rfl | hp
  · exact .zero
  · rw [ofNat_eq hp (Nat.lt_succ_of_le hk)]
    exact .whole .positive hp (Nat.lt_succ_of_le hk)

theorem Holds.eq_ofNat {x : Float} {k : Nat} (h : Holds x k) (hk : 0 < k) : x = Float.ofNat k := by
  generalize hn : (k : Int) = n at h
  cases h with
  | zero | negativeZero => omega
  | @whole sign l hp hl =>
    cases sign with
    | positive =>
      obtain rfl : k = l := Int.ofNat.inj hn
      exact (ofNat_eq hp hl).symm
    | negative => exact absurd (apply_neg hp) (Int.not_lt.2 (hn ▸ Int.natCast_nonneg k))

theorem holds_ofInt {n : Int} (hn : n.natAbs ≤ maxSafe) : Holds (ofInt n) n := by
  unfold ofInt
  rcases Int.lt_trichotomy n 0 with hneg | rfl | hpos
  · have hk : 0 < n.natAbs := Int.natAbs_pos.2 (Int.ne_of_lt hneg)
    have hsign : n = Sign.negative.apply n.natAbs := by
      show n = -(n.natAbs : Int)
      omega
    rw [if_pos hneg, ofNat_eq hk (Nat.lt_succ_of_le hn), neg_ofNormal]
    conv => rhs; rw [hsign]
    exact .whole .negative hk (Nat.lt_succ_of_le hn)
  · exact .zero
  · have hsize : (n.natAbs : Int) = n := Int.natAbs_of_nonneg (Int.le_of_lt hpos)
    rw [if_neg (Int.not_lt.2 (Int.le_of_lt hpos))]
    exact hsize ▸ holds_ofNat hn

/-- The product of two counts is exact. -/
theorem ofNat_mul {a b : Nat} (hb : 0 < b) (hb' : b ≤ maxSafe) (h : a * b ≤ maxSafe) :
    Float.ofNat a * Float.ofNat b = Float.ofNat (a * b) := by
  rcases Nat.eq_zero_or_pos a with rfl | ha
  · have hzero : (Float.ofNat 0).toModel.unpack = .zero .positive := rfl
    show Float.ofModel (Float.Model.pack (UnpackedFloat.mul .binary64
      (Float.ofNat 0).toModel.unpack (Float.ofNat b).toModel.unpack)) = _
    rw [hzero, unpack_ofNat hb hb', Nat.zero_mul]
    rfl
  · have hprod : ((a : Int) * b).natAbs ≤ maxSafe := by
      rwa [← Int.natCast_mul, Int.natAbs_natCast]
    have ha' : a ≤ maxSafe := Nat.le_trans (Nat.le_mul_of_pos_right a hb) h
    have hmul := (holds_ofNat ha').mul (holds_ofNat hb') hprod
    rw [← Int.natCast_mul] at hmul
    exact hmul.eq_ofNat (Nat.mul_pos ha hb)

theorem Holds.natAbs_le {x : Float} {n : Int} (h : Holds x n) : n.natAbs ≤ maxSafe := by
  cases h with
  | zero | negativeZero => decide
  | whole sign _ hk =>
    rw [natAbs_apply]
    exact Nat.le_of_lt_succ hk

theorem holds_one : Holds 1.0 1 :=
  .whole .positive Nat.one_pos (by decide)

theorem holds_neg_one : Holds (-1.0) (-1) :=
  .whole .negative Nat.one_pos (by decide)

theorem Unpacks.isFinite {u : UnpackedFloat} {n : Int} (h : Unpacks u n) : u.isFinite = true := by
  cases h with
  | zero => rfl
  | whole => rfl

theorem Holds.isFinite {x : Float} {n : Int} (h : Holds x n) : x.isFinite = true :=
  h.unpacks.isFinite

theorem Unpacks.compare_zero_iff {u : UnpackedFloat} {n : Int} (h : Unpacks u n) (s : Sign) :
    u.compare (.zero s) = some .eq ↔ n = 0 := by
  cases h with
  | zero => exact ⟨fun _ => rfl, fun _ => rfl⟩
  | @whole sign k hp _ =>
    cases sign with
    | positive => exact ⟨nofun, fun hk => absurd hk (Int.ne_of_gt (apply_pos hp))⟩
    | negative => exact ⟨nofun, fun hk => absurd hk (Int.ne_of_lt (apply_neg hp))⟩

theorem Holds.beq_zero_iff {x : Float} {n : Int} (h : Holds x n) : (x == 0.0) = true ↔ n = 0 := by
  rw [beq_iff]
  exact h.unpacks.compare_zero_iff .positive

theorem signed_isNegative (sign : Sign) (k : Nat) : signed (isNegative sign) k = sign.apply k := by
  cases sign with
  | positive => rfl
  | negative => rfl

theorem nearest?_of_parts {x : Float} {negative : Bool} {m k : Nat} {e : Int}
    (hparts : parts x = .finite negative m e) (hwhole : wholePart m e = (k, false)) :
    nearest? x = some (signed negative k) := by
  unfold nearest?
  rw [hparts]
  unfold wholePart at hwhole
  dsimp only at hwhole ⊢
  split
  · rename_i he
    rw [if_pos he] at hwhole
    rw [(Prod.mk.inj hwhole).1]
  · rename_i he
    rw [if_neg he] at hwhole
    obtain ⟨hdiv, hmod⟩ := Prod.mk.inj hwhole
    have hzero : m % Nat.pow 2 (-e).toNat = 0 := by
      simpa using hmod
    have hunit : 0 < Nat.pow 2 (-e).toNat := Nat.two_pow_pos _
    have hm : m = Nat.pow 2 (-e).toNat * k := by
      have hsplit := Nat.div_add_mod m (Nat.pow 2 (-e).toNat)
      rw [hdiv, hzero, Nat.add_zero] at hsplit
      exact hsplit.symm
    -- half a unit more leads to no other number
    have hnearest : (2 * m + Nat.pow 2 (-e).toNat) / (2 * Nat.pow 2 (-e).toNat) = k := by
      generalize Nat.pow 2 (-e).toNat = unit at *
      rw [hm, ← Nat.mul_assoc, Nat.mul_add_div (by omega), Nat.div_eq_of_lt (by omega),
        Nat.add_zero]
    rw [hnearest]

theorem Holds.nearest? {x : Float} {n : Int} (h : Holds x n) : nearest? x = some n := by
  cases h with
  | zero =>
    have hparts : parts 0.0 = .finite false 0 (-1074) := rfl
    exact nearest?_of_parts hparts (wholePart_zero _)
  | negativeZero =>
    have hparts : parts (-0.0) = .finite true 0 (-1074) := rfl
    exact nearest?_of_parts hparts (wholePart_zero _)
  | whole sign hp hk =>
    rw [← signed_isNegative]
    exact nearest?_of_parts (parts_ofNormal _ sign) (wholePart_of_nat hk)

end Workflow.Number
