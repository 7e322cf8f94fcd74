/-
  StreamBuffer.Proofs.Json.Rounding

  The doubles that number literals are computed with, and how far they are from exact.

  A double is taken apart into its significand and its exponent. `IsNormal u v` says that it
  uses every bit of its significand and that its value is `v`, and `HasValue x v` that a
  stored double is one. Rounding a number with bits enough gives one that is near it
  (`exists_isNormal_roundWithAccuracy`); it is stored as it is below `overflow`, and as
  infinity from there on (`IsNormal.unpack_pack_eq`, `IsNormal.unpack_pack_eq_infinity`).

  Each of the three steps of a conversion is such a rounding: a number of 64 bits
  (`exists_hasValue_toFloat`), a power of ten (`exists_hasValue_powerOfTen`) and a product
  (`HasValue.mul`); together they are off by three roundings (`product_bounds`). Here a
  rounding is off by one part in `2 ^ 52`, twice what it really may be: so it does not matter
  which way it goes.
-/
import StreamBuffer.Json.NumberLiteral
import Mathlib

namespace StreamBuffer

namespace Double

open Float.Model (Format UnpackedFloat totalExponent)
open Float.Model.UnpackedFloat

/-! ## Nearness -/

/-- The value is off another one by no more than one part in `2 ^ bits` of it. -/
def Near (bits : Nat) (v w : ℚ) : Prop := |v - w| ≤ w / 2 ^ bits

/-- The least power of two that is too large for a double. -/
def overflow : ℚ := 2 ^ 1024

theorem Near.bounds {bits : Nat} {v w : ℚ} (h : Near bits v w) :
    (1 - 1 / 2 ^ bits) * w ≤ v ∧ v ≤ (1 + 1 / 2 ^ bits) * w := by
  obtain ⟨hlow, hhigh⟩ := abs_le.mp h
  constructor
  · calc (1 - 1 / 2 ^ bits) * w = w - w / 2 ^ bits := by ring
      _ ≤ v := by linarith
  · calc v ≤ w + w / 2 ^ bits := by linarith
      _ = (1 + 1 / 2 ^ bits) * w := by ring

theorem Near.mul_right {bits : Nat} {v w : ℚ} (h : Near bits v w) {c : ℚ} (hc : 0 ≤ c) :
    Near bits (v * c) (w * c) := by
  rw [Near, ← sub_mul, abs_mul, abs_of_nonneg hc, mul_div_right_comm]
  exact mul_le_mul_of_nonneg_right h hc

/-- Nothing but zero is near zero, and zero is near nothing else. -/
theorem Near.eq_zero_iff {v w : ℚ} (h : Near 60 v w) : v = 0 ↔ w = 0 := by
  obtain ⟨hlow, hhigh⟩ := h.bounds
  constructor
  · rintro rfl
    linarith
  · rintro rfl
    linarith

theorem near_self {bits : Nat} {v : ℚ} (h : 0 ≤ v) : Near bits v v := by
  rw [Near, sub_self, abs_zero]
  positivity

/-- Numbers that begin with the same digits are near if these are many. -/
theorem near_of_leading {m q a b : Nat} (hm : 2 ^ 60 ≤ m) (ha : m * q ≤ a ∧ a < (m + 1) * q)
    (hb : m * q ≤ b ∧ b < (m + 1) * q) : Near 60 (a : ℚ) b := by
  have hlarge : 2 ^ 60 * q ≤ b := (Nat.mul_le_mul_right q hm).trans hb.1
  -- both are in the same stretch of length `q`
  have hlow : b ≤ a + q := by linarith
  have hhigh : a ≤ b + q := by linarith
  have hlarge' : (2 : ℚ) ^ 60 * q ≤ b := by exact_mod_cast hlarge
  have hlow' : (b : ℚ) ≤ a + q := by exact_mod_cast hlow
  have hhigh' : (a : ℚ) ≤ b + q := by exact_mod_cast hhigh
  rw [Near, le_div_iff₀ (by positivity)]
  have hdiff : |(a : ℚ) - b| ≤ q := abs_le.mpr ⟨by linarith, by linarith⟩
  linarith

theorem overflow_pos : 0 < overflow := by
  rw [overflow]
  positivity

/-- A number of 64 bits is far below. -/
theorem two_pow_lt_overflow : (2 : ℚ) ^ 64 < overflow :=
  pow_lt_pow_right₀ (by norm_num) (by norm_num)

/-- A product that is rounded, of factors that are, is off by three roundings. -/
theorem product_bounds {a b p x y : ℚ} (hx : 0 ≤ x) (hy : 0 ≤ y) (ha : Near 52 a x)
    (hb : Near 52 b y) (hp : Near 52 p (a * b)) :
    (1 - 1 / 2 ^ 52) ^ 3 * (x * y) ≤ p ∧ p ≤ (1 + 1 / 2 ^ 52) ^ 3 * (x * y) := by
  obtain ⟨ha, ha'⟩ := ha.bounds
  obtain ⟨hb, hb'⟩ := hb.bounds
  obtain ⟨hp, hp'⟩ := hp.bounds
  have hx' : 0 ≤ (1 - 1 / 2 ^ 52) * x := mul_nonneg (by norm_num) hx
  have hy' : 0 ≤ (1 - 1 / 2 ^ 52) * y := mul_nonneg (by norm_num) hy
  -- one factor of the error for each rounding: the product's own, then those of its factors
  constructor
  · calc (1 - 1 / 2 ^ 52) ^ 3 * (x * y)
          = (1 - 1 / 2 ^ 52) * ((1 - 1 / 2 ^ 52) * x * ((1 - 1 / 2 ^ 52) * y)) := by ring
      _ ≤ (1 - 1 / 2 ^ 52) * (a * b) :=
        mul_le_mul_of_nonneg_left (mul_le_mul ha hb hy' (hx'.trans ha)) (by norm_num)
      _ ≤ p := hp
  · calc p ≤ (1 + 1 / 2 ^ 52) * (a * b) := hp'
      _ ≤ (1 + 1 / 2 ^ 52) * ((1 + 1 / 2 ^ 52) * x * ((1 + 1 / 2 ^ 52) * y)) :=
        mul_le_mul_of_nonneg_left (mul_le_mul ha' hb' (hy'.trans hb)
          (hx'.trans (ha.trans ha'))) (by norm_num)
      _ = (1 + 1 / 2 ^ 52) ^ 3 * (x * y) := by ring

/-! ## Rounding -/

/-- The double is positive, uses every bit of its significand, and has the value. -/
def IsNormal (u : UnpackedFloat) (v : ℚ) : Prop :=
  ∃ m e h, u = .finite .positive m e h ∧ m.log2 = 52 ∧ -52 ≤ e ∧ v = m * 2 ^ e

theorem mantissa_shiftRight (em : ExtendedMantissa) (k : Nat) :
    (em >>> k).mantissa = em.mantissa / 2 ^ k := by
  induction k with
  | zero =>
    rw [Nat.pow_zero, Nat.div_one]
    rfl
  | succ k ih =>
    calc (em >>> (k + 1)).mantissa = (em >>> k).mantissa / 2 := rfl
      _ = em.mantissa / 2 ^ k / 2 := by rw [ih]
      _ = em.mantissa / 2 ^ (k + 1) := by rw [Nat.div_div_eq_div_mul, Nat.pow_succ]

/-- A mantissa is rounded to itself or to its successor. -/
theorem roundedMantissa_bounds (em : ExtendedMantissa) :
    em.mantissa ≤ em.roundedMantissa ∧ em.roundedMantissa ≤ em.mantissa + 1 := by
  obtain ⟨m, r, s⟩ := em
  -- which of the two depends on the bits behind the mantissa, and then on its last bit
  cases r <;> cases s <;>
    simp only [ExtendedMantissa.roundedMantissa, ExtendedMantissa.accuracy,
      Accuracy.roundToNearestEven] <;> omega

/-- No number that is rounded here is so small that bits of its significand are lost. -/
theorem targetExponent_eq {m : Nat} {e : ℤ} (he : -52 ≤ e + ((m.log2 : ℤ) - 52)) :
    Format.binary64.targetExponent (totalExponent m e) = e + ((m.log2 : ℤ) - 52) := by
  simp only [Format.targetExponent, totalExponent, Format.mantissaBits, Format.minExponent]
  omega

theorem shiftToTargetExponent_eq {m k : Nat} {e : ℤ} (hm : m.log2 = 52 + k)
    (he : -52 ≤ e + k) :
    shiftToTargetExponent Format.binary64 m e .exact
      = (ExtendedMantissa.ofMantissaAndAccuracy m .exact >>> k, e + k) := by
  have ht := targetExponent_eq (m := m) (e := e) (by omega)
  have hk : (Format.binary64.targetExponent (totalExponent m e) - e).toNat = k := by omega
  simp only [shiftToTargetExponent, shiftToExponent, hk]

/-- A mantissa that fits stays, and one that rounding made a bit longer loses a zero. -/
theorem shiftToTargetExponent_of_fits {r : Nat} {e : ℤ} (hr : r.log2 = 52) (he : -52 ≤ e) :
    shiftToTargetExponent Format.binary64 r e .exact = (⟨r, false, false⟩, e) := by
  rw [shiftToTargetExponent_eq (k := 0) hr (by omega), Nat.cast_zero, add_zero]
  rfl

theorem shiftToTargetExponent_of_carry {e : ℤ} (he : -52 ≤ e) :
    shiftToTargetExponent Format.binary64 (2 ^ 53) e .exact = (⟨2 ^ 52, false, false⟩, e + 1) := by
  rw [shiftToTargetExponent_eq (k := 1) Nat.log2_two_pow (by omega)]
  rfl

/-- Without its excess bits a number has as many as a significand. -/
theorem div_two_pow_bounds {m k : Nat} (hm : m.log2 = 52 + k) :
    2 ^ 52 ≤ m / 2 ^ k ∧ m / 2 ^ k < 2 ^ 53 := by
  have hne : m ≠ 0 := by
    rintro rfl
    rw [Nat.log2_zero] at hm
    omega
  obtain ⟨hlow, hhigh⟩ := (Nat.log2_eq_iff hne).mp hm
  constructor
  · rw [Nat.le_div_iff_mul_le (Nat.two_pow_pos k), ← Nat.pow_add]
    exact hlow
  · rw [Nat.div_lt_iff_lt_mul (Nat.two_pow_pos k), ← Nat.pow_add,
      show 53 + k = 52 + k + 1 by omega]
    exact hhigh

/-- Rounding in the last place of a significand stays near. -/
theorem near_of_rounded {m r k : Nat} (e : ℤ) (hm : m.log2 = 52 + k) (hle : m / 2 ^ k ≤ r)
    (hge : r ≤ m / 2 ^ k + 1) : Near 52 ((r : ℚ) * 2 ^ (e + (k : ℤ))) ((m : ℚ) * 2 ^ e) := by
  have hne : m ≠ 0 := by
    rintro rfl
    rw [Nat.log2_zero] at hm
    omega
  have hlow : m ≤ r * 2 ^ k + 2 ^ k :=
    calc m ≤ (m / 2 ^ k + 1) * 2 ^ k :=
          (Nat.lt_div_mul_add (Nat.two_pow_pos k)).le.trans_eq (by ring)
      _ ≤ (r + 1) * 2 ^ k := Nat.mul_le_mul_right _ (by omega)
      _ = r * 2 ^ k + 2 ^ k := by ring
  have hhigh : r * 2 ^ k ≤ m + 2 ^ k :=
    calc r * 2 ^ k ≤ (m / 2 ^ k + 1) * 2 ^ k := Nat.mul_le_mul_right _ hge
      _ = m / 2 ^ k * 2 ^ k + 2 ^ k := by ring
      _ ≤ m + 2 ^ k := Nat.add_le_add_right (Nat.div_mul_le_self m _) _
  have hlarge : 2 ^ 52 * 2 ^ k ≤ m := by
    rw [← Nat.pow_add, ← hm]
    exact Nat.log2_self_le hne
  -- in places of the result, the error is no more than one
  have herror : |(r : ℚ) * 2 ^ k - m| ≤ m / 2 ^ 52 := by
    have hlow' : (m : ℚ) ≤ r * 2 ^ k + 2 ^ k := by exact_mod_cast hlow
    have hhigh' : (r : ℚ) * 2 ^ k ≤ m + 2 ^ k := by exact_mod_cast hhigh
    have hlarge' : (2 : ℚ) ^ 52 * 2 ^ k ≤ m := by exact_mod_cast hlarge
    have hplace : |(r : ℚ) * 2 ^ k - m| ≤ 2 ^ k := abs_le.mpr ⟨by linarith, by linarith⟩
    rw [le_div_iff₀ (by positivity)]
    linarith
  have hpow : (0 : ℚ) < 2 ^ e := by positivity
  rw [Near, zpow_add₀ (by norm_num), zpow_natCast]
  calc |(r : ℚ) * (2 ^ e * 2 ^ k) - m * 2 ^ e| = |(r : ℚ) * 2 ^ k - m| * 2 ^ e := by
        rw [← abs_of_pos hpow, ← abs_mul, abs_of_pos hpow]
        ring_nf
    _ ≤ m / 2 ^ 52 * 2 ^ e := mul_le_mul_of_nonneg_right herror hpow.le
    _ = m * 2 ^ e / 2 ^ 52 := by ring

/-- A number with bits enough is rounded to a double near it. -/
theorem exists_isNormal_roundWithAccuracy {m k : Nat} {e : ℤ} (hm : m.log2 = 52 + k)
    (he : -52 ≤ e + k) :
    ∃ v, IsNormal (roundWithAccuracy Format.binary64 .positive m e .exact) v
      ∧ Near 52 v (m * 2 ^ e) := by
  let em := ExtendedMantissa.ofMantissaAndAccuracy m .exact >>> k
  let second := shiftToTargetExponent Format.binary64 em.roundedMantissa (e + k) .exact
  have hmantissa : em.mantissa = m / 2 ^ k := mantissa_shiftRight _ k
  obtain ⟨hlow, hhigh⟩ := div_two_pow_bounds hm
  obtain ⟨hle, hge⟩ := roundedMantissa_bounds em
  rw [hmantissa] at hle hge
  have hround : roundWithAccuracy Format.binary64 .positive m e .exact
      = if h : second.1.mantissa = 0 then .zero .positive
        else .finite .positive second.1.mantissa second.2 (Nat.pos_of_ne_zero h) := by
    rw [roundWithAccuracy, shiftToTargetExponent_eq hm he]
  refine ⟨em.roundedMantissa * 2 ^ (e + (k : ℤ)), ?_, near_of_rounded e hm hle hge⟩
  rw [hround]
  -- rounding up may have made the mantissa one bit longer
  by_cases hfits : em.roundedMantissa < 2 ^ 53
  · have hlog : em.roundedMantissa.log2 = 52 :=
      (Nat.log2_eq_iff (by omega)).mpr ⟨by omega, hfits⟩
    have hsecond : second = (⟨em.roundedMantissa, false, false⟩, e + k) :=
      shiftToTargetExponent_of_fits hlog he
    rw [hsecond]
    exact ⟨em.roundedMantissa, e + k, by omega, dif_neg (by dsimp only; omega), hlog, he, rfl⟩
  · have hfull : em.roundedMantissa = 2 ^ 53 := by omega
    have hsecond : second = (⟨2 ^ 52, false, false⟩, e + k + 1) := by
      rw [← shiftToTargetExponent_of_carry he, ← hfull]
    rw [hsecond]
    refine ⟨2 ^ 52, e + k + 1, by omega, dif_neg (by dsimp only; decide), Nat.log2_two_pow,
      by omega, ?_⟩
    rw [hfull, zpow_add_one₀ (by norm_num)]
    push_cast
    ring

/-! ## Storing -/

/-- The leading bit of a significand is not stored. -/
theorem toNat_append_implicit (m : BitVec 52) : (1#1 ++ m).toNat = 2 ^ 52 + m.toNat := by
  rw [BitVec.toNat_append, ← Nat.shiftLeft_add_eq_or_of_lt m.isLt]
  rfl

theorem unpack_pack (u : UnpackedFloat) :
    (Float.Model.pack u).unpack
      = UnpackedFloat.unpack Format.binary64 (UnpackedFloat.pack Format.binary64 u) := rfl

/-- The value of a double is below `overflow` if its exponent is below the last one. -/
theorem lt_overflow_iff {m : Nat} {e : ℤ} (hm : m.log2 = 52) :
    (m : ℚ) * 2 ^ e < overflow ↔ e < 972 := by
  have hne : m ≠ 0 := by
    rintro rfl
    cases hm
  obtain ⟨hlow, hhigh⟩ := (Nat.log2_eq_iff hne).mp hm
  have hlow' : (2 : ℚ) ^ 52 ≤ m := by exact_mod_cast hlow
  have hhigh' : (m : ℚ) < 2 ^ 53 := by exact_mod_cast hhigh
  have hpow : (0 : ℚ) < 2 ^ e := by positivity
  constructor
  · intro h
    have hexponent : (2 : ℚ) ^ (52 + e) < 2 ^ (1024 : ℤ) := by
      rw [zpow_add₀ (by norm_num)]
      exact lt_of_le_of_lt (mul_le_mul_of_nonneg_right hlow' hpow.le) h
    have := (zpow_lt_zpow_iff_right₀ (by norm_num)).mp hexponent
    omega
  · intro h
    calc (m : ℚ) * 2 ^ e < 2 ^ 53 * 2 ^ e := mul_lt_mul_of_pos_right hhigh' hpow
      _ = 2 ^ (53 + e) := by
        rw [zpow_add₀ (by norm_num)]
        rfl
      _ ≤ 2 ^ (1024 : ℤ) := zpow_le_zpow_right₀ (by norm_num) (by omega)

/-- A double below `overflow` is stored as it is. -/
theorem IsNormal.unpack_pack_eq {u : UnpackedFloat} {v : ℚ} (h : IsNormal u v)
    (hv : v < overflow) : (Float.Model.pack u).unpack = u := by
  obtain ⟨m, e, hpos, rfl, hm, he, rfl⟩ := h
  have hlast := (lt_overflow_iff hm).mp hv
  -- the exponent is stored with a bias, between those of zeros and of infinities
  obtain ⟨b, hb⟩ : ∃ b : Nat, e + 1023 + 52 = b := Int.eq_ofNat_of_zero_le (by omega)
  have hbias : (e + (Format.binary64.exponentBias : ℕ) + (52 : ℕ)).toNat = b := by
    rw [show Format.binary64.exponentBias = 1023 from rfl]
    omega
  have hpack : UnpackedFloat.pack Format.binary64 (.finite .positive m e hpos)
      = packComponents Format.binary64 .positive (BitVec.ofNat 11 b) (BitVec.ofNat 52 m) := by
    rw [UnpackedFloat.pack]
    simp only [hbias, hm]
    rw [if_neg (by omega), if_pos (by rfl)]
  have hexponent : (BitVec.ofNat 11 b).toNat = b := by
    rw [BitVec.toNat_ofNat]
    omega
  have hne : ∀ v : BitVec 11, v.toNat ≠ b → BitVec.ofNat 11 b ≠ v := by
    rintro v hv rfl
    exact hv hexponent
  have hfinite : BitVec.ofNat 11 b ≠ -1#11 := hne _ (show 2047 ≠ b by omega)
  have hnormal : BitVec.ofNat 11 b ≠ 0#11 := hne _ (show 0 ≠ b by omega)
  have hmantissa : (1#1 ++ BitVec.ofNat 52 m).toNat = m := by
    have := (Nat.log2_eq_iff hpos.ne').mp hm
    rw [toNat_append_implicit, BitVec.toNat_ofNat]
    omega
  rw [unpack_pack, hpack, UnpackedFloat.unpack]
  simp only [unpackExponent_packComponents, unpackMantissa_packComponents,
    unpackSign_packComponents, if_neg hfinite, if_neg hnormal, hmantissa, hexponent]
  congr 1
  rw [show Format.binary64.exponentBias = 1023 from rfl]
  omega

/-- A larger one is stored as infinity. -/
theorem IsNormal.unpack_pack_eq_infinity {u : UnpackedFloat} {v : ℚ} (h : IsNormal u v)
    (hv : overflow ≤ v) : (Float.Model.pack u).unpack = .infinity .positive := by
  obtain ⟨m, e, hpos, rfl, hm, he, rfl⟩ := h
  have hlast : ¬ e < 972 := fun h => not_lt.mpr hv ((lt_overflow_iff hm).mpr h)
  have hpack : UnpackedFloat.pack Format.binary64 (.finite .positive m e hpos)
      = packedInfinity Format.binary64 .positive := by
    rw [UnpackedFloat.pack]
    simp only [show Format.binary64.exponentBias = 1023 from rfl]
    rw [if_pos (by omega)]
  rw [unpack_pack, hpack]
  rfl

/-! ## Stored doubles -/

/-- The stored double has the value, with every bit of its significand. -/
def HasValue (x : Float) (v : ℚ) : Prop := IsNormal x.toModel.unpack v

theorem HasValue.isInf {x : Float} {v : ℚ} (h : HasValue x v) : x.isInf = false := by
  obtain ⟨m, e, hpos, hx, -⟩ := h
  show x.toModel.unpack.isInf = false
  rw [hx]
  rfl

theorem HasValue.beq_zero {x : Float} {v : ℚ} (h : HasValue x v) : (x == 0) = false := by
  obtain ⟨m, e, hpos, hx, -⟩ := h
  have hzero : (0 : Float).toModel.unpack = .zero .positive := by rfl
  show x.toModel.unpack.beq (0 : Float).toModel.unpack = false
  rw [hx, hzero]
  rfl

theorem HasValue.isInf_zero_mul {y : Float} {w : ℚ} (h : HasValue y w) :
    ((UInt64.ofNat 0).toFloat * y).isInf = false := by
  obtain ⟨m, e, hpos, hy, -⟩ := h
  have hzero : (UInt64.ofNat 0).toFloat.toModel.unpack = .zero .positive := by rfl
  have hproduct : ((UInt64.ofNat 0).toFloat * y).toModel = .pack (.zero .positive) := by
    show Float.Model.pack (UnpackedFloat.mul Format.binary64 _ y.toModel.unpack) = _
    rw [hzero, hy]
    rfl
  show ((UInt64.ofNat 0).toFloat * y).toModel.unpack.isInf = false
  rw [hproduct]
  rfl

/-- What is near a number of no more than 309 digits is small enough for a double. -/
theorem Near.lt_overflow {v w : ℚ} (h : Near 52 v w) (hw : w ≤ 10 ^ maxPower) :
    v < overflow := by
  have hbound : (10 : ℚ) ^ maxPower * (2 ^ 52 + 1) < overflow * 2 ^ 52 := by
    have : 10 ^ maxPower * (2 ^ 52 + 1) < 2 ^ 1024 * 2 ^ 52 := by decide +kernel
    rw [overflow]
    exact_mod_cast this
  have herror := (abs_le.mp h).2
  rw [le_div_iff₀ (by norm_num)] at herror
  linarith

/-- The product of two doubles is near the product of their values, or infinite. -/
theorem HasValue.mul {x y : Float} {v w : ℚ} (hx : HasValue x v) (hy : HasValue y w) :
    ∃ p, Near 52 p (v * w) ∧ (p < overflow → HasValue (x * y) p)
      ∧ (overflow ≤ p → (x * y).isInf = true) := by
  obtain ⟨m, e, hpos, hx, hm, he, rfl⟩ := hx
  obtain ⟨m', e', hpos', hy, hm', he', rfl⟩ := hy
  -- the product of two full significands has more bits than one, as rounding needs it
  have hlog : 104 ≤ (m * m').log2 := by
    rw [Nat.le_log2 (Nat.mul_pos hpos hpos').ne']
    calc 2 ^ 104 = 2 ^ 52 * 2 ^ 52 := by norm_num
      _ ≤ m * m' := Nat.mul_le_mul ((Nat.log2_eq_iff hpos.ne').mp hm).1
        ((Nat.log2_eq_iff hpos'.ne').mp hm').1
  obtain ⟨p, hp, hnear⟩ := exists_isNormal_roundWithAccuracy (m := m * m') (e := e + e')
    (k := (m * m').log2 - 52) (by omega) (by omega)
  have hvalue : ((m * m' : Nat) : ℚ) * 2 ^ (e + e') = m * 2 ^ e * (m' * 2 ^ e') := by
    rw [zpow_add₀ (by norm_num)]
    push_cast
    ring
  have hproduct : (x * y).toModel
      = .pack (roundWithAccuracy Format.binary64 .positive (m * m') (e + e') .exact) := by
    show Float.Model.pack (UnpackedFloat.mul Format.binary64 x.toModel.unpack y.toModel.unpack) = _
    rw [hx, hy]
    rfl
  rw [hvalue] at hnear
  refine ⟨p, hnear, fun hlt => ?_, fun hle => ?_⟩
  · rw [HasValue, hproduct, hp.unpack_pack_eq hlt]
    exact hp
  · show (x * y).toModel.unpack.isInf = true
    rw [hproduct, hp.unpack_pack_eq_infinity hle]
    rfl

theorem log2_shiftLeft {n : Nat} (hpos : 0 < n) (d : Nat) : (n <<< d).log2 = n.log2 + d := by
  obtain ⟨hlow, hhigh⟩ := (Nat.log2_eq_iff hpos.ne').mp rfl
  rw [Nat.shiftLeft_eq, Nat.log2_eq_iff (by positivity), Nat.pow_add,
    show n.log2 + d + 1 = n.log2 + 1 + d by omega, Nat.pow_add]
  exact ⟨Nat.mul_le_mul_right _ hlow, Nat.mul_lt_mul_of_pos_right hhigh (Nat.two_pow_pos d)⟩

/-- A positive number of 64 bits has a double near it. -/
theorem exists_hasValue_toFloat {n : Nat} (hpos : 0 < n) (hlt : n < UInt64.size) :
    ∃ v, HasValue (UInt64.ofNat n).toFloat v ∧ Near 52 v n := by
  have hlog : n.log2 < 64 := (Nat.log2_lt hpos.ne').mpr hlt
  -- a number with fewer bits than a significand gets zeros behind them
  let d := (0 - Format.binary64.targetExponent (totalExponent n 0)).toNat
  have hd : (d : ℤ) = max (52 - n.log2) 0 := by
    simp only [d, targetExponent_eq (m := n) (e := 0) (by omega)]
    omega
  have hlog' : (n <<< d).log2 = n.log2 + d := log2_shiftLeft hpos d
  obtain ⟨v, hv, hnear⟩ := exists_isNormal_roundWithAccuracy (m := n <<< d) (e := 0 - d)
    (k := n.log2 + d - 52) (by omega) (by omega)
  have hmodel : (UInt64.ofNat n).toFloat.toModel
      = .pack (roundWithAccuracy Format.binary64 .positive (n <<< d) (0 - d) .exact) := by
    have hn : (UInt64.ofNat n).toNat = n := UInt64.toNat_ofNat_of_lt hlt
    have hcompare : compare (n : ℤ) 0 = .gt := compare_gt_iff_gt.mpr (by omega)
    show Float.Model.pack
      (UnpackedFloat.normalize Format.binary64 ((UInt64.ofNat n).toNat : ℤ) 0 .positive) = _
    rw [hn, UnpackedFloat.normalize, hcompare]
    rfl
  have hvalue : ((n <<< d : Nat) : ℚ) * 2 ^ (0 - (d : ℤ)) = n := by
    rw [Nat.shiftLeft_eq, zero_sub, zpow_neg, zpow_natCast]
    push_cast
    rw [mul_assoc, mul_inv_cancel₀ (by positivity), mul_one]
  have hbound : (n : ℚ) ≤ 10 ^ maxPower := by
    have : n ≤ 10 ^ maxPower := hlt.le.trans (by decide +kernel)
    exact_mod_cast this
  rw [hvalue] at hnear
  refine ⟨v, ?_, hnear⟩
  rw [HasValue, hmodel, hv.unpack_pack_eq (hnear.lt_overflow hbound)]
  exact hv

/-- The small powers of ten are exact. -/
theorem exists_hasValue_table {k : Nat} (hk : k ≤ 22) :
    ∃ x, Float.exactlyRepresentablePowersOfTen[k]? = some x ∧ HasValue x (10 ^ k) := by
  -- `k * 3322 / 1000` is the binary logarithm of `10 ^ k` here
  have hparts : ∃ x, Float.exactlyRepresentablePowersOfTen[k]? = some x
      ∧ ∃ h, x.toModel.unpack = .finite .positive (10 ^ k * 2 ^ 52 / 2 ^ (k * 3322 / 1000))
          ((k * 3322 / 1000 : Nat) - 52) h := by
    interval_cases k <;> exact ⟨_, rfl, by decide, by rfl⟩
  obtain ⟨x, hx, hpos, hparts⟩ := hparts
  refine ⟨x, hx, _, _, hpos, hparts, ?_⟩
  interval_cases k <;> exact ⟨by decide +kernel, by decide, by norm_num⟩

/-- A power of ten has a double near it. -/
theorem exists_hasValue_powerOfTen {k : Nat} (hk : k ≤ maxPower) :
    ∃ v, HasValue (powerOfTen k) v ∧ Near 52 v (10 ^ k) := by
  have hbound : (10 : ℚ) ^ k ≤ 10 ^ maxPower := pow_le_pow_right₀ (by norm_num) hk
  by_cases hsmall : k ≤ 22
  · -- found in the table, and multiplied by one
    have hone : HasValue (1 : Nat).toUInt64.toFloat 1 :=
      ⟨2 ^ 52, -52, by decide, by rfl, by decide +kernel, by decide, by norm_num⟩
    obtain ⟨x, hx, hexact⟩ := exists_hasValue_table hsmall
    obtain ⟨v, hnear, hvalue, -⟩ := hone.mul hexact
    have hproduct : powerOfTen k = (1 : Nat).toUInt64.toFloat * x := by
      rw [powerOfTen, Float.ofScientific, dif_pos ⟨by norm_num, hsmall⟩,
        ← (Array.getElem?_eq_some_iff.mp hx).2]
      rfl
    rw [one_mul] at hnear
    refine ⟨v, ?_, hnear⟩
    rw [hproduct]
    exact hvalue (hnear.lt_overflow hbound)
  · -- rounded, with zeros enough behind it that no bit is missing
    have hlog : 53 ≤ (1 <<< 53 * 10 ^ k).log2 := by
      rw [Nat.le_log2 (Nat.mul_pos (by decide) (by positivity)).ne']
      exact (by decide : 2 ^ 53 ≤ 1 <<< 53 * 1).trans
        (Nat.mul_le_mul_left _ (Nat.one_le_pow _ _ (by norm_num)))
    obtain ⟨v, hv, hnear⟩ := exists_isNormal_roundWithAccuracy (m := 1 <<< 53 * 10 ^ k) (e := -53)
      (k := (1 <<< 53 * 10 ^ k).log2 - 52) (by omega) (by omega)
    have hmodel : (powerOfTen k).toModel
        = .pack (roundWithAccuracy Format.binary64 .positive (1 <<< 53 * 10 ^ k) (-53) .exact) := by
      have hlarge : ¬ (k : ℤ) > 2 ^ Format.binary64.exponentBits := by
        have := hk.trans (show maxPower ≤ 2048 by decide)
        show ¬ (k : ℤ) > 2048
        omega
      have hnegative : ¬ (k : ℤ) < -(2 ^ Format.binary64.exponentBits + ((1 : Nat).log2 : ℤ)) := by
        show ¬ (k : ℤ) < -2048
        omega
      rw [powerOfTen, Float.ofScientific, dif_neg (by omega)]
      show Float.Model.pack (UnpackedFloat.ofScientific Format.binary64 1 k) = _
      rw [UnpackedFloat.ofScientific, dif_neg (by omega), if_neg hlarge, if_neg hnegative,
        if_pos (by omega)]
      rfl
    have hvalue : ((1 <<< 53 * 10 ^ k : Nat) : ℚ) * 2 ^ (-53 : ℤ) = 10 ^ k := by
      push_cast
      ring
    rw [hvalue] at hnear
    refine ⟨v, ?_, hnear⟩
    rw [HasValue, hmodel, hv.unpack_pack_eq (hnear.lt_overflow hbound)]
    exact hv

end Double

end StreamBuffer
