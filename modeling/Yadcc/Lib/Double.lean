/-
# Arithmetic in doubles

What the conversion of a word to a double, the product of two doubles and their comparison
mean for the numbers that the doubles stand for. The doubles here are zero, or positive and
normal. A result is the nearest multiple of the unit in the last place.
-/

import Mathlib

namespace Yadcc.Lib

open Float.Model (Format UnpackedFloat totalExponent)
open Float.Model.UnpackedFloat

/-! ## Rounding a mantissa -/

/-- A mantissa of which nothing has been shifted out. -/
def exactMantissa (m : ℕ) : ExtendedMantissa := ⟨m, false, false⟩

/-- The bits that are shifted out are the round bit and the sticky bit. -/
theorem shiftRight_succ (m k : ℕ) : exactMantissa m >>> (k + 1) =
    ⟨m / 2 ^ (k + 1), m / 2 ^ k % 2 != 0, m % 2 ^ k != 0⟩ := by
  induction k with
  | zero =>
      simp [exactMantissa, HShiftRight.hShiftRight, Nat.repeat, ExtendedMantissa.shiftRightOne,
        Nat.mod_one]
  | succ k ih =>
      change ExtendedMantissa.shiftRightOne (exactMantissa m >>> (k + 1)) = _
      rw [ih, ExtendedMantissa.shiftRightOne, Nat.div_div_eq_div_mul, ← pow_succ]
      congr 1
      rw [Nat.mod_pow_succ, Bool.eq_iff_iff, Bool.or_eq_true, bne_iff_ne, bne_iff_ne, bne_iff_ne,
        ne_eq, ne_eq, ne_eq, Nat.add_eq_zero_iff, mul_eq_zero]
      have hpow : 2 ^ k ≠ 0 := by positivity
      tauto

theorem roundedMantissa_mk (m : ℕ) (roundBit stickyBit : Bool) :
    (⟨m, roundBit, stickyBit⟩ : ExtendedMantissa).roundedMantissa =
      if roundBit then (if stickyBit then m + 1 else m + m % 2) else m := by
  cases roundBit <;> cases stickyBit <;> rfl

/-- What is shifted out makes a difference of at most half a unit. -/
theorem roundedMantissa_near (m k : ℕ) :
    2 * ((exactMantissa m >>> k).roundedMantissa * 2 ^ k) ≤ 2 * m + 2 ^ k ∧
    2 * m ≤ 2 * ((exactMantissa m >>> k).roundedMantissa * 2 ^ k) + 2 ^ k := by
  cases k with
  | zero =>
      change 2 * (m * 2 ^ 0) ≤ _ ∧ _ ≤ 2 * (m * 2 ^ 0) + _
      omega
  | succ k =>
      rw [shiftRight_succ, roundedMantissa_mk]
      have hrest : m % 2 ^ k < 2 ^ k := Nat.mod_lt m (by positivity)
      have hsplit : m = 2 ^ k * (2 * (m / 2 ^ (k + 1)) + m / 2 ^ k % 2) + m % 2 ^ k := by
        rw [pow_succ, ← Nat.div_div_eq_div_mul, Nat.div_add_mod, Nat.div_add_mod]
      have hbit : m / 2 ^ k % 2 = 0 ∨ m / 2 ^ k % 2 = 1 := Nat.mod_two_eq_zero_or_one _
      generalize m / 2 ^ (k + 1) = q at *
      rw [pow_succ]
      generalize m % 2 ^ k = rest at *
      generalize m / 2 ^ k % 2 = bit at *
      rcases hbit with rfl | rfl
      · change 2 * (q * _) ≤ _ ∧ _ ≤ 2 * (q * _) + _
        constructor <;> linarith
      · by_cases hexact : rest = 0
        · subst hexact
          change 2 * ((q + q % 2) * _) ≤ _ ∧ _ ≤ 2 * ((q + q % 2) * _) + _
          rcases Nat.mod_two_eq_zero_or_one q with heven | hodd
          · rw [heven]
            constructor <;> linarith
          · rw [hodd]
            constructor <;> linarith
        · have hup : (if ((1 : ℕ) != 0) = true then
              (if (rest != 0) = true then q + 1 else q + q % 2) else q) = q + 1 :=
            (if_pos rfl).trans (if_pos (bne_iff_ne.mpr hexact))
          have hpos : 0 < rest := Nat.pos_of_ne_zero hexact
          rw [hup]
          constructor <;> linarith

/-! ## Rounding to 53 bits -/

/-- A mantissa of 53 bits whose exponent is in the range of normal doubles. -/
structure IsNormal (m : ℕ) (e : ℤ) : Prop where
  lower : 2 ^ 52 ≤ m
  upper : m < 2 ^ 53
  least : -1074 ≤ e
  greatest : e ≤ 971

theorem IsNormal.log2_eq {m : ℕ} {e : ℤ} (h : IsNormal m e) : m.log2 = 52 := by
  have hpos := h.lower
  exact (Nat.log2_eq_iff (by omega)).mpr ⟨h.lower, h.upper⟩

theorem targetExponent_binary64 (m : ℕ) (e : ℤ) :
    Format.binary64.targetExponent (totalExponent m e) = max (m.log2 + e - 52) (-1074) := by
  change max ((m.log2 : ℤ) + 1 + e - 53) (-1074) = _
  congr 1
  ring

theorem shiftToTargetExponent_exact {m k : ℕ} {e : ℤ}
    (h : max ((m.log2 : ℤ) + e - 52) (-1074) = e + k) :
    shiftToTargetExponent Format.binary64 m e .exact = (exactMantissa m >>> k, e + k) := by
  have hamount : (e + (k : ℤ) - e).toNat = k := by omega
  unfold shiftToTargetExponent shiftToExponent
  rw [targetExponent_binary64, h]
  simp only [hamount]
  rfl

/-- A mantissa of 53 bits is kept, and one that was rounded up to the next power is halved. -/
theorem shiftToTargetExponent_rounded {m : ℕ} {e : ℤ} (hlower : 2 ^ 52 ≤ m)
    (hupper : m ≤ 2 ^ 53) (hleast : -1074 ≤ e) (hgreatest : e ≤ 970) : ∃ m' e',
      (shiftToTargetExponent Format.binary64 m e .exact).1.mantissa = m' ∧
      (shiftToTargetExponent Format.binary64 m e .exact).2 = e' ∧ IsNormal m' e' ∧
      (m' : ℚ) * 2 ^ e' = m * 2 ^ e := by
  rcases hupper.lt_or_eq with hlt | rfl
  · have hnormal : IsNormal m e := ⟨hlower, hlt, hleast, by omega⟩
    have hkept : max ((m.log2 : ℤ) + e - 52) (-1074) = e + (0 : ℕ) := by
      rw [hnormal.log2_eq]
      omega
    rw [shiftToTargetExponent_exact hkept]
    exact ⟨m, e, rfl, add_zero e, hnormal, rfl⟩
  · have hhalved : max (((2 ^ 53 : ℕ).log2 : ℤ) + e - 52) (-1074) = e + (1 : ℕ) := by
      rw [Nat.log2_two_pow]
      omega
    rw [shiftToTargetExponent_exact hhalved]
    refine ⟨2 ^ 52, e + 1, rfl, rfl, ⟨le_rfl, by omega, by omega, by omega⟩, ?_⟩
    rw [zpow_add₀ two_ne_zero]
    push_cast
    ring

/-- Rounding a mantissa of at least 53 bits, of which `k` are too much. -/
theorem roundWithAccuracy_exact {m k : ℕ} {e : ℤ} (hlog : m.log2 = 52 + k)
    (hleast : -1074 ≤ e + k) (hgreatest : e + k ≤ 970) :
    ∃ (r m' : ℕ) (e' : ℤ) (hm' : 0 < m'),
      roundWithAccuracy Format.binary64 .positive m e .exact = .finite .positive m' e' hm' ∧
      IsNormal m' e' ∧ (m' : ℚ) * 2 ^ e' = r * 2 ^ (e + k) ∧
      2 * (r * 2 ^ k) ≤ 2 * m + 2 ^ k ∧ 2 * m ≤ 2 * (r * 2 ^ k) + 2 ^ k := by
  have htarget : max ((m.log2 : ℤ) + e - 52) (-1074) = e + k := by
    rw [hlog]
    omega
  have hm : m ≠ 0 := by
    rintro rfl
    rw [Nat.log2_zero] at hlog
    omega
  obtain ⟨habove, hbelow⟩ := roundedMantissa_near m k
  set r := (exactMantissa m >>> k).roundedMantissa with hr
  have hlower : 2 ^ 52 ≤ r := by
    by_contra hlt
    have hmul : (r + 1) * 2 ^ k ≤ 2 ^ 52 * 2 ^ k := Nat.mul_le_mul_right _ (by omega)
    have hlarge : 2 ^ 52 * 2 ^ k ≤ m := by
      rw [← pow_add, ← hlog]
      exact Nat.log2_self_le hm
    have hpow : 0 < 2 ^ k := by positivity
    linarith
  have hupper : r ≤ 2 ^ 53 := by
    by_contra hgt
    have hmul : (2 ^ 53 + 1) * 2 ^ k ≤ r * 2 ^ k := Nat.mul_le_mul_right _ (by omega)
    have hsmall : m < 2 ^ 53 * 2 ^ k := by
      have hexp : m.log2 + 1 = 53 + k := by omega
      rw [← pow_add, ← hexp]
      exact Nat.lt_log2_self
    linarith
  obtain ⟨m', e', hmantissa, hexponent, hnormal, hvalue⟩ :=
    shiftToTargetExponent_rounded hlower hupper hleast hgreatest
  have hpos : 0 < m' := lt_of_lt_of_le (by positivity) hnormal.lower
  refine ⟨r, m', e', hpos, ?_, hnormal, hvalue, habove, hbelow⟩
  unfold roundWithAccuracy
  rw [shiftToTargetExponent_exact htarget]
  simp only [← hr, hmantissa, hexponent]
  rw [dif_neg hpos.ne']

/-! ## Packing -/

/-- Packing loses nothing of a normal double. -/
theorem unpack_pack {m : ℕ} {e : ℤ} (hm : 0 < m) (h : IsNormal m e) :
    (Float.Model.pack (.finite .positive m e hm)).unpack = .finite .positive m e hm := by
  obtain ⟨hlower, hupper, hleast, hgreatest⟩ := h
  have hbias : Format.binary64.exponentBias = 1023 := rfl
  have hpack : UnpackedFloat.pack Format.binary64 (.finite .positive m e hm) =
      packComponents Format.binary64 .positive (BitVec.ofNat 11 (e + 1075).toNat)
        (BitVec.ofNat 52 m) := by
    have hbiased : e + (Format.binary64.exponentBias : ℤ) +
        (Format.binary64.mantissaBitsWithoutImplicit : ℤ) = e + 1075 := by
      rw [hbias]
      push_cast
      ring
    have hfinite : ¬ 2 ^ 11 ≤ (e + 1075).toNat + 1 := by omega
    unfold UnpackedFloat.pack
    dsimp only
    rw [hbiased, if_neg hfinite, IsNormal.log2_eq ⟨hlower, hupper, hleast, hgreatest⟩]
    rfl
  have hexponent : (BitVec.ofNat 11 (e + 1075).toNat).toNat = (e + 1075).toNat := by
    rw [BitVec.toNat_ofNat]
    exact Nat.mod_eq_of_lt (by omega)
  have hmantissa : (BitVec.ofNat 52 m).toNat = m - 2 ^ 52 := by
    rw [BitVec.toNat_ofNat]
    omega
  unfold Float.Model.unpack
  change UnpackedFloat.unpack Format.binary64 (UnpackedFloat.pack Format.binary64 _) = _
  rw [hpack]
  unfold UnpackedFloat.unpack
  simp only [unpackMantissa_packComponents, unpackExponent_packComponents]
  rw [if_neg, if_neg]
  · congr 1
    · rw [unpackSign_packComponents]
      rfl
    · rw [BitVec.toNat_append, hmantissa, ← Nat.shiftLeft_add_eq_or_of_lt (by omega)]
      change 1 <<< 52 + (m - 2 ^ 52) = m
      rw [Nat.one_shiftLeft]
      omega
    · rw [hexponent, hbias]
      omega
  · intro heq
    have hzero := congrArg BitVec.toNat heq
    rw [hexponent] at hzero
    change (e + 1075).toNat = 0 at hzero
    omega
  · intro heq
    have hones := congrArg BitVec.toNat heq
    rw [hexponent] at hones
    change (e + 1075).toNat = 2047 at hones
    omega

/-! ## Values -/

/-- What a double stands for that is zero, or positive and normal. -/
inductive HasValue : Float → ℚ → Prop
  | zero {x : Float} (h : x.toModel.unpack = .zero .positive) : HasValue x 0
  | normal {x : Float} {m : ℕ} {e : ℤ} {hm : 0 < m}
      (h : x.toModel.unpack = .finite .positive m e hm) (hnormal : IsNormal m e) :
      HasValue x (m * 2 ^ e)

/-- `r` is the multiple of the unit in the last place of `q` that is nearest to `q`, or one of
two that are. -/
structure Rounds (q r : ℚ) (unit : ℤ) : Prop where
  lower : 2 ^ (unit + 52) ≤ q
  upper : q < 2 ^ (unit + 53)
  multiple : ∃ n : ℕ, r = n * 2 ^ unit
  notAbove : 2 * (r - q) ≤ 2 ^ unit
  notBelow : 2 * (q - r) ≤ 2 ^ unit

def Nearest (q r : ℚ) : Prop := q = 0 ∧ r = 0 ∨ ∃ unit, Rounds q r unit

theorem zpow_log2_le {m : ℕ} (hm : m ≠ 0) (e : ℤ) : (2 : ℚ) ^ (m.log2 + e) ≤ m * 2 ^ e := by
  have hlow : (2 : ℚ) ^ m.log2 ≤ m := by exact_mod_cast Nat.log2_self_le hm
  rw [zpow_add₀ two_ne_zero, zpow_natCast]
  gcongr

theorem lt_zpow_log2 (m : ℕ) (e : ℤ) : (m : ℚ) * 2 ^ e < 2 ^ (m.log2 + 1 + e) := by
  have hhigh : (m : ℚ) < 2 ^ (m.log2 + 1) := by exact_mod_cast Nat.lt_log2_self
  rw [zpow_add₀ two_ne_zero, ← Nat.cast_add_one, zpow_natCast]
  gcongr

theorem hasValue_round {m k : ℕ} {e : ℤ} (hlog : m.log2 = 52 + k) (hleast : -1074 ≤ e + k)
    (hgreatest : e + k ≤ 970) {x : Float}
    (hx : x.toModel = .pack (roundWithAccuracy Format.binary64 .positive m e .exact)) :
    ∃ r, HasValue x r ∧ Rounds (m * 2 ^ e) r (e + k) := by
  obtain ⟨n, m', e', hm', hround, hnormal, hvalue, habove, hbelow⟩ :=
    roundWithAccuracy_exact hlog hleast hgreatest
  have hm : m ≠ 0 := by
    rintro rfl
    rw [Nat.log2_zero] at hlog
    omega
  have hunpack : x.toModel.unpack = .finite .positive m' e' hm' := by
    rw [hx, hround]
    exact unpack_pack hm' hnormal
  have hunit : (2 : ℚ) ^ (e + k) = 2 ^ k * 2 ^ e := by
    rw [zpow_add₀ two_ne_zero, zpow_natCast, mul_comm]
  have hpow : (0 : ℚ) < 2 ^ e := by positivity
  have habove' : (2 : ℚ) * (n * 2 ^ k) ≤ 2 * m + 2 ^ k := by exact_mod_cast habove
  have hbelow' : (2 : ℚ) * m ≤ 2 * (n * 2 ^ k) + 2 ^ k := by exact_mod_cast hbelow
  refine ⟨m' * 2 ^ e', .normal hunpack hnormal, ?_, ?_, ⟨n, hvalue⟩, ?_, ?_⟩
  · have hlow := zpow_log2_le hm e
    rw [hlog] at hlow
    convert hlow using 2
    push_cast
    ring
  · have hhigh := lt_zpow_log2 m e
    rw [hlog] at hhigh
    convert hhigh using 2
    push_cast
    ring
  · calc
      2 * ((m' : ℚ) * 2 ^ e' - m * 2 ^ e) = (2 * (n * 2 ^ k) - 2 * m) * 2 ^ e := by
        rw [hvalue, hunit]
        ring
      _ ≤ 2 ^ k * 2 ^ e := by
        gcongr
        linarith
      _ = 2 ^ (e + k) := hunit.symm
  · calc
      2 * ((m : ℚ) * 2 ^ e - m' * 2 ^ e') = (2 * m - 2 * (n * 2 ^ k)) * 2 ^ e := by
        rw [hvalue, hunit]
        ring
      _ ≤ 2 ^ k * 2 ^ e := by
        gcongr
        linarith
      _ = 2 ^ (e + k) := hunit.symm

/-! ## Words -/

theorem log2_mul_pow {n : ℕ} (hn : n ≠ 0) (k : ℕ) : (n * 2 ^ k).log2 = n.log2 + k := by
  have hpow : 0 < 2 ^ k := by positivity
  rw [Nat.log2_eq_iff (Nat.mul_ne_zero hn hpow.ne'), pow_add, add_right_comm, pow_add _ _ k]
  constructor
  · exact Nat.mul_le_mul_right _ (Nat.log2_self_le hn)
  · exact Nat.mul_lt_mul_of_pos_right Nat.lt_log2_self hpow

/-- A short word is shifted to the left first. -/
theorem toModel_toFloat {n : UInt64} (hn : n.toNat ≠ 0) : n.toFloat.toModel =
    .pack (roundWithAccuracy Format.binary64 .positive (n.toNat * 2 ^ (52 - n.toNat.log2))
      (-(52 - n.toNat.log2 : ℕ)) .exact) := by
  have hcompare : compare (n.toNat : ℤ) 0 = .gt := compare_gt_iff_gt.mpr (by omega)
  have hshift : (-max ((n.toNat.log2 : ℤ) + 0 - 52) (-1074)).toNat = 52 - n.toNat.log2 := by
    omega
  change Float.Model.pack (UnpackedFloat.normalize Format.binary64 n.toNat 0 .positive) = _
  unfold UnpackedFloat.normalize
  rw [hcompare]
  dsimp only
  unfold UnpackedFloat.round decreaseExponent
  rw [targetExponent_binary64]
  simp only [Int.toNat_natCast, zero_sub, hshift, Nat.shiftLeft_eq]

/-- A word becomes the nearest double. -/
theorem hasValue_toFloat (n : UInt64) : ∃ r, HasValue n.toFloat r ∧ Nearest n.toNat r := by
  by_cases hn : n.toNat = 0
  · have hzero : n = 0 := UInt64.toNat.inj hn
    rw [hzero]
    exact ⟨0, .zero rfl, .inl ⟨rfl, rfl⟩⟩
  · have hword : n.toNat.log2 < 64 := (Nat.log2_lt hn).mpr n.toNat_lt
    have hlog : (n.toNat * 2 ^ (52 - n.toNat.log2)).log2 = 52 + (n.toNat.log2 - 52) := by
      rw [log2_mul_pow hn]
      omega
    have hscaled : ((n.toNat * 2 ^ (52 - n.toNat.log2) : ℕ) : ℚ) *
        2 ^ (-(52 - n.toNat.log2 : ℕ) : ℤ) = n.toNat := by
      rw [zpow_neg, zpow_natCast]
      push_cast
      field_simp
    obtain ⟨r, hvalue, hrounds⟩ :=
      hasValue_round hlog (by omega) (by omega) (toModel_toFloat hn)
    rw [hscaled] at hrounds
    exact ⟨r, hvalue, .inr ⟨_, hrounds⟩⟩

/-! ## Products and comparisons -/

theorem hasValue_zero {x : Float} (h : x.toModel = .pack (.zero .positive)) : HasValue x 0 :=
  .zero (by rw [h]; rfl)

/-- The product of two doubles is the double that is nearest to the product of their values, if
that is in the range of normal doubles. -/
theorem HasValue.mul {x y : Float} {p q : ℚ} (hx : HasValue x p) (hy : HasValue y q)
    (hleast : p * q ≠ 0 → 2 ^ (-1022 : ℤ) ≤ p * q) (hgreatest : p * q < 2 ^ (1022 : ℤ)) :
    ∃ r, HasValue (x * y) r ∧ Nearest (p * q) r := by
  have hmodel : (x * y).toModel =
      .pack (UnpackedFloat.mul Format.binary64 x.toModel.unpack y.toModel.unpack) := rfl
  cases hx with
  | zero hx =>
      rw [zero_mul]
      refine ⟨0, hasValue_zero ?_, .inl ⟨rfl, rfl⟩⟩
      cases hy with
      | zero hy =>
          rw [hmodel, hx, hy]
          rfl
      | normal hy _ =>
          rw [hmodel, hx, hy]
          rfl
  | @normal m e hm hx hnormal =>
      cases hy with
      | zero hy =>
          rw [mul_zero]
          refine ⟨0, hasValue_zero ?_, .inl ⟨rfl, rfl⟩⟩
          rw [hmodel, hx, hy]
          rfl
      | @normal m' e' hm' hy hnormal' =>
          have hround : (x * y).toModel = .pack (roundWithAccuracy Format.binary64 .positive
              (m * m') (e + e') .exact) := by
            rw [hmodel, hx, hy]
            rfl
          have hproduct : (m : ℚ) * 2 ^ e * (m' * 2 ^ e') = (m * m' : ℕ) * 2 ^ (e + e') := by
            rw [zpow_add₀ two_ne_zero]
            push_cast
            ring
          rw [hproduct] at hleast hgreatest ⊢
          have hne : m * m' ≠ 0 := Nat.mul_ne_zero hm.ne' hm'.ne'
          have hlarge : 104 ≤ (m * m').log2 := by
            rw [Nat.le_log2 hne]
            calc
              2 ^ 104 = 2 ^ 52 * 2 ^ 52 := by norm_num
              _ ≤ m * m' := Nat.mul_le_mul hnormal.lower hnormal'.lower
          have habove := (zpow_lt_zpow_iff_right₀ one_lt_two).mp
            ((hleast (by positivity)).trans_lt (lt_zpow_log2 (m * m') (e + e')))
          have hbelow := (zpow_lt_zpow_iff_right₀ one_lt_two).mp
            ((zpow_log2_le hne (e + e')).trans_lt hgreatest)
          have hlog : (m * m').log2 = 52 + ((m * m').log2 - 52) := by omega
          obtain ⟨r, hr, hrounds⟩ := hasValue_round hlog (by omega) (by omega) hround
          exact ⟨r, hr, .inr ⟨_, hrounds⟩⟩

/-- Normal doubles are ordered by their exponents, and then by their mantissas. -/
theorem normal_lt_iff {m m' : ℕ} {e e' : ℤ} (h : IsNormal m e) (h' : IsNormal m' e') :
    (m : ℚ) * 2 ^ e < m' * 2 ^ e' ↔ ((compare e e').then (compare m m')) = .lt := by
  have hless {m m' : ℕ} {e e' : ℤ} (h : IsNormal m e) (h' : IsNormal m' e') (he : e < e') :
      (m : ℚ) * 2 ^ e < m' * 2 ^ e' := by
    have hupper : (m : ℚ) < 2 ^ (53 : ℤ) := by exact_mod_cast h.upper
    have hlower : (2 : ℚ) ^ (52 : ℤ) ≤ m' := by exact_mod_cast h'.lower
    calc
      (m : ℚ) * 2 ^ e < 2 ^ (53 : ℤ) * 2 ^ e := by gcongr
      _ = 2 ^ (53 + e) := (zpow_add₀ two_ne_zero _ _).symm
      _ ≤ 2 ^ (52 + e') := zpow_le_zpow_right₀ one_le_two (by omega)
      _ = 2 ^ (52 : ℤ) * 2 ^ e' := zpow_add₀ two_ne_zero _ _
      _ ≤ m' * 2 ^ e' := by gcongr
  rcases lt_trichotomy e e' with he | rfl | he
  · rw [compare_lt_iff_lt.mpr he]
    exact iff_of_true (hless h h' he) rfl
  · rw [compare_eq_iff_eq.mpr rfl, mul_lt_mul_iff_left₀ (by positivity), Nat.cast_lt]
    exact compare_lt_iff_lt.symm
  · rw [compare_gt_iff_gt.mpr he]
    exact iff_of_false (hless h' h he).not_gt nofun

/-- Doubles are compared as what they stand for. -/
theorem HasValue.lt_iff {x y : Float} {p q : ℚ} (hx : HasValue x p) (hy : HasValue y q) :
    x < y ↔ p < q := by
  have hcompare : x < y ↔ x.toModel.unpack.compare y.toModel.unpack = some .lt :=
    decide_eq_true_iff.trans beq_iff_eq
  rw [hcompare]
  cases hx with
  | zero hx =>
      cases hy with
      | zero hy =>
          rw [hx, hy]
          exact iff_of_false nofun (lt_irrefl _)
      | @normal m' e' hm' hy _ =>
          rw [hx, hy]
          exact iff_of_true rfl (by positivity)
  | @normal m e hm hx hnormal =>
      have hpos : (0 : ℚ) < m * 2 ^ e := by positivity
      cases hy with
      | zero hy =>
          rw [hx, hy]
          exact iff_of_false nofun hpos.not_gt
      | @normal m' e' hm' hy hnormal' =>
          rw [hx, hy, normal_lt_iff hnormal hnormal']
          exact Option.some_inj

/-! ## Multiples of the unit are kept -/

/-- A multiple of a power of two is one of each smaller power. -/
theorem exists_multiple {unit v : ℤ} (h : unit ≤ v) (n : ℕ) :
    ∃ k : ℕ, (n : ℚ) * 2 ^ v = k * 2 ^ unit := by
  refine ⟨n * 2 ^ (v - unit).toNat, ?_⟩
  have hexp : v = ((v - unit).toNat : ℤ) + unit := by omega
  nth_rewrite 1 [hexp]
  rw [zpow_add₀ two_ne_zero, zpow_natCast]
  push_cast
  ring

theorem Rounds.le_multiple {q r s : ℚ} {unit : ℤ} (h : Rounds q r unit)
    (hs : ∃ k : ℕ, s = k * 2 ^ unit) (hle : q ≤ s) : r ≤ s := by
  obtain ⟨n, rfl⟩ := h.multiple
  obtain ⟨k, rfl⟩ := hs
  have hunit : (0 : ℚ) < 2 ^ unit := by positivity
  have hnear := h.notAbove
  have hlt : (n : ℚ) * 2 ^ unit < (k + 1) * 2 ^ unit := by linarith
  have hnk : n < k + 1 := by exact_mod_cast lt_of_mul_lt_mul_right hlt hunit.le
  gcongr
  omega

theorem Rounds.multiple_le {q r s : ℚ} {unit : ℤ} (h : Rounds q r unit)
    (hs : ∃ k : ℕ, s = k * 2 ^ unit) (hle : s ≤ q) : s ≤ r := by
  obtain ⟨n, rfl⟩ := h.multiple
  obtain ⟨k, rfl⟩ := hs
  have hunit : (0 : ℚ) < 2 ^ unit := by positivity
  have hnear := h.notBelow
  have hlt : (k : ℚ) * 2 ^ unit < (n + 1) * 2 ^ unit := by linarith
  have hkn : k < n + 1 := by exact_mod_cast lt_of_mul_lt_mul_right hlt hunit.le
  gcongr
  omega

theorem Rounds.unit_lt {q r : ℚ} {unit bound : ℤ} (h : Rounds q r unit)
    (hq : q < 2 ^ (bound + 52)) : unit < bound := by
  have hlt := (zpow_lt_zpow_iff_right₀ (one_lt_two : (1 : ℚ) < 2)).mp (h.lower.trans_lt hq)
  omega

/-- A word below 2⁵³ is converted exactly. -/
theorem hasValue_toFloat_small {n : UInt64} (hn : n.toNat < 2 ^ 53) :
    HasValue n.toFloat n.toNat := by
  obtain ⟨r, hvalue, hnearest⟩ := hasValue_toFloat n
  rcases hnearest with ⟨hzero, rfl⟩ | ⟨unit, hrounds⟩
  · rw [hzero]
    exact hvalue
  · have hlt : (n.toNat : ℚ) < 2 ^ (1 + 52 : ℤ) := by exact_mod_cast hn
    have hunit : unit ≤ 0 := by
      have := hrounds.unit_lt hlt
      omega
    have hmultiple : ∃ k : ℕ, (n.toNat : ℚ) = k * 2 ^ unit := by
      simpa using exists_multiple hunit n.toNat
    have heq : r = n.toNat :=
      le_antisymm (hrounds.le_multiple hmultiple le_rfl) (hrounds.multiple_le hmultiple le_rfl)
    rw [← heq]
    exact hvalue

/-- A word from 2⁵³ on stays there. -/
theorem hasValue_toFloat_large {n : UInt64} (hn : 2 ^ 53 ≤ n.toNat) :
    ∃ r, HasValue n.toFloat r ∧ 2 ^ 53 ≤ r := by
  obtain ⟨r, hvalue, hnearest⟩ := hasValue_toFloat n
  have hlarge : (2 : ℚ) ^ 53 ≤ n.toNat := by exact_mod_cast hn
  refine ⟨r, hvalue, ?_⟩
  rcases hnearest with ⟨hzero, -⟩ | ⟨unit, hrounds⟩
  · rw [hzero] at hlarge
    norm_num at hlarge
  · have hlt : (n.toNat : ℚ) < 2 ^ (12 + 52 : ℤ) := by exact_mod_cast n.toNat_lt
    have hunit : unit ≤ 53 := by
      have := hrounds.unit_lt hlt
      omega
    have hmultiple : ∃ k : ℕ, (2 : ℚ) ^ 53 = k * 2 ^ unit := by
      simpa using exists_multiple hunit 1
    exact hrounds.multiple_le hmultiple hlarge

end Yadcc.Lib
