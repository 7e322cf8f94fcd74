/-
  StreamBuffer.Proofs.Json.Magnitude

  What a number literal stands for: an integer, a double, or nothing.

  The digits of a literal are gathered as long as their number has 64 bits, so that those
  gathered come near them all (`NumberScan.near_gathered`), and at their place near the exact
  magnitude (`near_exactMagnitude`). With the three roundings of the conversion, a literal
  has no double if its magnitude is `overflow`, and has one below, but for one part in
  `2 ^ 50` (`magnitude?_bounds`). An exponent of more than 31 bits settles it by itself
  (`magnitude?_eq_none_iff`).

  On literals by their parts: integers of their range stand for themselves, and no other
  literal does (`Numeral.value?_scan`).
-/
import StreamBuffer.Proofs.Json.Numeral
import StreamBuffer.Proofs.Json.Rounding

namespace StreamBuffer

open Double

/-! ## Scaling -/

/-- Zero stays a double, whatever it is multiplied by. -/
theorem multiplyByPower?_zero (k : Nat) : multiplyByPower? (UInt64.ofNat 0).toFloat k ≠ none := by
  unfold multiplyByPower?
  split
  · rename_i hk
    obtain ⟨v, hv, -⟩ := exists_hasValue_powerOfTen hk
    rw [if_neg (by rw [hv.isInf_zero_mul]; exact Bool.false_ne_true)]
    exact Option.some_ne_none _
  · have hzero : ((UInt64.ofNat 0).toFloat == 0) = true := by rfl
    rw [if_pos hzero]
    exact Option.some_ne_none _

/-- A number of 64 bits times a power of ten has no double if the product is `overflow`, but
    for three roundings. -/
theorem multiplyByPower?_toFloat {n : Nat} (hn : n < UInt64.size) (k : Nat) :
    (multiplyByPower? (UInt64.ofNat n).toFloat k = none →
        overflow ≤ (1 + 1 / 2 ^ 52) ^ 3 * (n * 10 ^ k))
      ∧ (multiplyByPower? (UInt64.ofNat n).toFloat k ≠ none →
        (1 - 1 / 2 ^ 52) ^ 3 * (n * 10 ^ k) < overflow) := by
  rcases Nat.eq_zero_or_pos n with rfl | hpos
  · refine ⟨fun h => absurd h (multiplyByPower?_zero k), fun _ => ?_⟩
    rw [Nat.cast_zero, zero_mul, mul_zero]
    exact overflow_pos
  obtain ⟨v, hv, hnear⟩ := exists_hasValue_toFloat hpos hn
  by_cases hk : k ≤ maxPower
  · obtain ⟨w, hw, hnear'⟩ := exists_hasValue_powerOfTen hk
    obtain ⟨p, hp, hfits, hinf⟩ := hv.mul hw
    obtain ⟨hlow, hhigh⟩ := product_bounds (Nat.cast_nonneg n) (by positivity) hnear hnear' hp
    rw [multiplyByPower?, if_pos hk]
    dsimp only
    rcases lt_or_ge p overflow with hp | hp
    · rw [(hfits hp).isInf]
      exact ⟨nofun, fun _ => hlow.trans_lt hp⟩
    · rw [hinf hp]
      exact ⟨fun _ => hp.trans hhigh, fun h => absurd rfl h⟩
  · -- beyond the largest power there is, only zero has a product
    rw [multiplyByPower?, if_neg hk, hv.beq_zero]
    refine ⟨fun _ => ?_, fun h => absurd rfl h⟩
    have hlarge : 2 ^ 1024 ≤ n * 10 ^ k :=
      calc 2 ^ 1024 ≤ 10 ^ (maxPower + 1) := by decide +kernel
        _ ≤ 10 ^ k := Nat.pow_le_pow_right (by omega) (by omega)
        _ ≤ n * 10 ^ k := Nat.le_mul_of_pos_left _ hpos
    calc overflow ≤ n * 10 ^ k := by
          rw [overflow]
          exact_mod_cast hlarge
      _ ≤ (1 + 1 / 2 ^ 52) ^ 3 * (n * 10 ^ k) :=
        le_mul_of_one_le_left (by positivity) (by norm_num)

/-! ## Rows of digits -/

theorem ofDigits_append (n : Nat) (first second : List Nat) :
    ofDigits n (first ++ second) = ofDigits (ofDigits n first) second :=
  List.foldl_append

/-- The digits behind a number are less than one in its last place. -/
theorem ofDigits_bounds (n : Nat) {digits : List Nat} (hdigits : ∀ d ∈ digits, d < 10) :
    n * 10 ^ digits.length ≤ ofDigits n digits
      ∧ ofDigits n digits < (n + 1) * 10 ^ digits.length := by
  induction digits generalizing n with
  | nil => simp [ofDigits]
  | cons d rest ih =>
    -- the first digit joins the number, and the others stand behind both
    have hd := hdigits d List.mem_cons_self
    obtain ⟨hlow, hhigh⟩ := ih (10 * n + d) fun e he => hdigits e (List.mem_cons_of_mem d he)
    rw [List.length_cons, Nat.pow_succ']
    constructor
    · calc n * (10 * 10 ^ rest.length) = 10 * n * 10 ^ rest.length := by ring
        _ ≤ (10 * n + d) * 10 ^ rest.length := Nat.mul_le_mul_right _ (by omega)
        _ ≤ ofDigits n (d :: rest) := hlow
    · calc ofDigits n (d :: rest) < (10 * n + d + 1) * 10 ^ rest.length := hhigh
        _ ≤ (10 * (n + 1)) * 10 ^ rest.length := Nat.mul_le_mul_right _ (by omega)
        _ = (n + 1) * (10 * 10 ^ rest.length) := by ring

/-- Behind a large number, digits and others in their place make near numbers. -/
theorem near_ofDigits {n : Nat} (hn : 2 ^ 60 ≤ n) {digits others : List Nat}
    (hdigits : ∀ d ∈ digits, d < 10) (hothers : ∀ d ∈ others, d < 10)
    (hle : others.length ≤ digits.length) :
    Near 60 (ofDigits n digits : ℚ)
      ((ofDigits n others * 10 ^ (digits.length - others.length) : Nat) : ℚ) := by
  obtain ⟨hlow, hhigh⟩ := ofDigits_bounds n hothers
  refine near_of_leading hn (ofDigits_bounds n hdigits) ?_
  have hpower : 10 ^ digits.length
      = 10 ^ others.length * 10 ^ (digits.length - others.length) := by
    rw [← Nat.pow_add, Nat.add_sub_cancel' hle]
  rw [hpower, ← Nat.mul_assoc, ← Nat.mul_assoc]
  exact ⟨Nat.mul_le_mul_right _ hlow, Nat.mul_lt_mul_of_pos_right hhigh (by positivity)⟩

/-! ## Gathered digits -/

/-- Gathering digits behind a number comes to the result: the number that the first of them
    make, and how many these are; if not all, the number is large. -/
structure Gathers (n : Nat) (digits : List Nat) (result : Nat × Nat) : Prop where
  value : result.1 = ofDigits n (digits.take result.2)
  le : result.2 ≤ digits.length
  large : result.2 < digits.length → 2 ^ 60 ≤ result.1

theorem gathers_gather (n : Nat) {digits : List Nat} (hdigits : ∀ d ∈ digits, d < 10) :
    Gathers n digits (gather n digits) := by
  induction digits generalizing n with
  | nil => exact ⟨rfl, Nat.le_refl _, fun h => absurd h (Nat.lt_irrefl _)⟩
  | cons d rest ih =>
    have hd := hdigits d List.mem_cons_self
    have hrest := ih (10 * n + d) fun e he => hdigits e (List.mem_cons_of_mem d he)
    rw [gather]
    split
    · exact ⟨hrest.value, Nat.succ_le_succ hrest.le,
        fun h => hrest.large (Nat.lt_of_succ_lt_succ h)⟩
    · -- another digit would be one too many
      rename_i hfull
      have hsize : UInt64.size = 2 ^ 64 := rfl
      exact ⟨rfl, Nat.zero_le _, fun _ => by dsimp only; omega⟩

theorem gather_lt {n : Nat} (hn : n < UInt64.size) (digits : List Nat) :
    (gather n digits).1 < UInt64.size := by
  induction digits generalizing n with
  | nil => exact hn
  | cons d rest ih =>
    rw [gather]
    split
    · rename_i hsize
      exact ih hsize
    · exact hn

/-- With zeros for the digits that are not gathered, those that are come near them all. -/
theorem Gathers.near {n : Nat} {digits : List Nat} {result : Nat × Nat}
    (h : Gathers n digits result) (hdigits : ∀ d ∈ digits, d < 10) :
    Near 60 (ofDigits n digits : ℚ)
      ((result.1 * 10 ^ (digits.length - result.2) : Nat) : ℚ) := by
  have hsplit : ofDigits n digits = ofDigits result.1 (digits.drop result.2) := by
    rw [h.value, ← ofDigits_append, List.take_append_drop]
  rcases h.le.lt_or_eq with hlt | hall
  · have hdropped : ∀ d ∈ digits.drop result.2, d < 10 := fun d hd =>
      hdigits d (List.mem_of_mem_drop hd)
    have hnone : ∀ d ∈ ([] : List Nat), d < 10 := nofun
    have hrest := near_ofDigits (h.large hlt) hdropped hnone (Nat.zero_le _)
    rwa [← hsplit, List.length_drop] at hrest
  · rw [hsplit, hall, List.drop_length, Nat.sub_self, Nat.pow_zero, Nat.mul_one]
    exact near_self (Nat.cast_nonneg _)

namespace NumberScan

/-! ## The magnitude of a scan -/

/-- The digits of the whole part and of the fraction. -/
def digits (s : NumberScan) : List Nat := s.whole.reverse ++ s.fraction.reverse

/-- The digits of the whole part that are gathered, and how many they are. -/
def gatheredWhole (s : NumberScan) : Nat × Nat := gather 0 s.whole.reverse

/-- The same with those of the fraction that are gathered behind them. -/
def gathered (s : NumberScan) : Nat × Nat := gather s.gatheredWhole.1 s.fraction.reverse

/-- The number of digits that are not gathered. -/
def dropped (s : NumberScan) : Nat := s.digits.length - s.gatheredWhole.2 - s.gathered.2

/-- The power of ten that the exponent names. -/
def power (s : NumberScan) : ℤ :=
  if s.exponentNegative then -(s.exponentAmount : ℤ) else s.exponentAmount

/-- The power of ten that the gathered digits are multiplied with. -/
def shift (s : NumberScan) : ℤ :=
  (s.whole.length - s.gatheredWhole.2 : Nat) - (s.gathered.2 : ℤ) + s.power

/-- The magnitude that the literal writes, exactly. -/
def exactMagnitude (s : NumberScan) : ℚ :=
  ofDigits 0 s.digits * 10 ^ (s.power - s.fraction.length)

variable {s : NumberScan}

theorem gathered_lt (s : NumberScan) : s.gathered.1 < UInt64.size :=
  gather_lt (gather_lt (by decide) _) _

section

variable (hs : ∀ d ∈ s.digits, d < 10)
include hs

theorem whole_lt : ∀ d ∈ s.whole.reverse, d < 10 := fun d hd => hs d (List.mem_append_left _ hd)

theorem fraction_lt : ∀ d ∈ s.fraction.reverse, d < 10 := fun d hd =>
  hs d (List.mem_append_right _ hd)

theorem gathers_whole : Gathers 0 s.whole.reverse s.gatheredWhole :=
  gathers_gather 0 (whole_lt hs)

theorem gathers_fraction : Gathers s.gatheredWhole.1 s.fraction.reverse s.gathered :=
  gathers_gather _ (fraction_lt hs)

/-- With zeros for the digits that are not gathered, those that are come near them all. -/
theorem near_gathered :
    Near 60 (ofDigits 0 s.digits : ℚ) ((s.gathered.1 * 10 ^ s.dropped : Nat) : ℚ) := by
  have hwhole := gathers_whole hs
  have hfraction := gathers_fraction hs
  -- behind the gathered digits of the whole part stand the others
  let others := s.whole.reverse.drop s.gatheredWhole.2 ++ s.fraction.reverse
  have hdigits : s.digits = s.whole.reverse.take s.gatheredWhole.2 ++ others := by
    rw [digits, ← List.append_assoc, List.take_append_drop]
  have hall : ofDigits 0 s.digits = ofDigits s.gatheredWhole.1 others := by
    rw [hdigits, ofDigits_append, ← hwhole.value]
  have hdropped : s.dropped = others.length - s.gathered.2 := by
    have hle := hwhole.le
    simp only [dropped, hdigits, List.length_append, List.length_take]
    omega
  rw [hall, hdropped]
  rcases hwhole.le.lt_or_eq with hlt | heq
  · -- the whole part is too long, and its gathered digits settle it alone
    have hlength : (s.fraction.reverse.take s.gathered.2).length = s.gathered.2 :=
      List.length_take_of_le hfraction.le
    have hle : s.gathered.2 ≤ others.length := by
      have hle := hfraction.le
      simp only [others, List.length_append]
      omega
    have hnear := near_ofDigits (hwhole.large hlt)
      (fun d hd => hs d (hdigits ▸ List.mem_append_right _ hd))
      (fun d hd => fraction_lt hs d (List.mem_of_mem_take hd)) (hlength.trans_le hle)
    rwa [← hfraction.value, hlength] at hnear
  · -- the whole part has been gathered, and the fraction goes on with it
    have hothers : others = s.fraction.reverse := by
      simp only [others, heq, List.drop_length, List.nil_append]
    rw [hothers]
    exact hfraction.near (fraction_lt hs)

/-- The gathered digits at their place are near the exact magnitude. -/
theorem near_exactMagnitude : Near 60 s.exactMagnitude (s.gathered.1 * 10 ^ s.shift) := by
  have hshift : s.shift = s.dropped + (s.power - s.fraction.length) := by
    have hle := (gathers_whole hs).le
    have hle' := (gathers_fraction hs).le
    simp only [List.length_reverse] at hle hle'
    simp only [shift, dropped, digits, List.length_append, List.length_reverse]
    omega
  have hscaled : (s.gathered.1 : ℚ) * 10 ^ s.shift
      = (s.gathered.1 * 10 ^ s.dropped : Nat) * 10 ^ (s.power - s.fraction.length) := by
    rw [hshift, zpow_add₀ (by norm_num), zpow_natCast]
    push_cast
    ring
  rw [hscaled]
  exact (near_gathered hs).mul_right (by positivity)

end

/-- The conversion by its steps. -/
theorem magnitude?_eq (s : NumberScan) :
    s.magnitude? =
      if s.exponentAmount < 2 ^ 31 then
        if 0 ≤ s.shift then
          multiplyByPower? (UInt64.ofNat s.gathered.1).toFloat s.shift.toNat
        else some (divideByPower (UInt64.ofNat s.gathered.1).toFloat (-s.shift).toNat)
      else if s.gathered.1 = 0 ∨ s.exponentNegative then some 0
      else none := by
  have hshift : s.shift
      = if s.exponentNegative then
          (s.whole.length - s.gatheredWhole.2 : Nat) - (s.gathered.2 : ℤ) - s.exponentAmount
        else
          (s.whole.length - s.gatheredWhole.2 : Nat) - (s.gathered.2 : ℤ) + s.exponentAmount := by
    rw [shift, power]
    split
    · ring
    · rfl
  rw [hshift]
  rfl

/-- Without an exponent beyond 31 bits, a literal has no double if its magnitude is too large
    for one, but for the errors of the conversion. -/
theorem magnitude?_bounds (hs : ∀ d ∈ s.digits, d < 10) (hsmall : s.exponentAmount < 2 ^ 31) :
    (s.magnitude? = none → (1 - 1 / 2 ^ 50) * overflow ≤ s.exactMagnitude)
      ∧ (s.magnitude? ≠ none → s.exactMagnitude < (1 + 1 / 2 ^ 50) * overflow) := by
  let scaled : ℚ := s.gathered.1 * 10 ^ s.shift
  have hscaled : 0 ≤ scaled := by positivity
  obtain ⟨hlow, hhigh⟩ := (near_exactMagnitude hs).bounds
  rw [magnitude?_eq, if_pos hsmall]
  split
  · rename_i hshift
    have hpower : scaled = s.gathered.1 * 10 ^ s.shift.toNat := by
      simp only [scaled]
      rw [← zpow_natCast, Int.toNat_of_nonneg hshift]
    obtain ⟨hnone, hsome⟩ := multiplyByPower?_toFloat s.gathered_lt s.shift.toNat
    rw [← hpower] at hnone hsome
    -- three roundings and the digits left out come to less than one part in `2 ^ 50`
    constructor
    · intro h
      calc (1 - 1 / 2 ^ 50) * overflow
            ≤ (1 - 1 / 2 ^ 50) * ((1 + 1 / 2 ^ 52) ^ 3 * scaled) :=
              mul_le_mul_of_nonneg_left (hnone h) (by norm_num)
        _ = (1 - 1 / 2 ^ 50) * (1 + 1 / 2 ^ 52) ^ 3 * scaled := by ring
        _ ≤ (1 - 1 / 2 ^ 60) * scaled := mul_le_mul_of_nonneg_right (by norm_num) hscaled
        _ ≤ s.exactMagnitude := hlow
    · intro h
      calc s.exactMagnitude ≤ (1 + 1 / 2 ^ 60) * scaled := hhigh
        _ ≤ (1 + 1 / 2 ^ 50) * (1 - 1 / 2 ^ 52) ^ 3 * scaled :=
              mul_le_mul_of_nonneg_right (by norm_num) hscaled
        _ = (1 + 1 / 2 ^ 50) * ((1 - 1 / 2 ^ 52) ^ 3 * scaled) := by ring
        _ < (1 + 1 / 2 ^ 50) * overflow := mul_lt_mul_of_pos_left (hsome h) (by norm_num)
  · -- a number of 64 bits that is divided is far too small
    rename_i hshift
    refine ⟨nofun, fun _ => ?_⟩
    have hpower : (10 : ℚ) ^ s.shift ≤ 1 := zpow_le_one_of_nonpos₀ (by norm_num) (by omega)
    have hsmall : scaled ≤ 2 ^ 64 :=
      calc scaled ≤ s.gathered.1 := mul_le_of_le_one_right (Nat.cast_nonneg _) hpower
        _ ≤ 2 ^ 64 := by exact_mod_cast s.gathered_lt.le
    calc s.exactMagnitude ≤ (1 + 1 / 2 ^ 60) * scaled := hhigh
      _ ≤ (1 + 1 / 2 ^ 60) * 2 ^ 64 := mul_le_mul_of_nonneg_left hsmall (by norm_num)
      _ ≤ (1 + 1 / 2 ^ 50) * 2 ^ 64 := by norm_num
      _ < (1 + 1 / 2 ^ 50) * overflow :=
        mul_lt_mul_of_pos_left two_pow_lt_overflow (by norm_num)

/-- With such an exponent, a literal has no double unless the exponent is negative or the
    magnitude is zero. -/
theorem magnitude?_eq_none_iff (hs : ∀ d ∈ s.digits, d < 10)
    (hlarge : 2 ^ 31 ≤ s.exponentAmount) :
    s.magnitude? = none ↔ s.exponentNegative = false ∧ s.exactMagnitude ≠ 0 := by
  have hzero : s.exactMagnitude = 0 ↔ s.gathered.1 = 0 := by
    have hpower : (10 : ℚ) ^ s.shift ≠ 0 := by positivity
    rw [(near_exactMagnitude hs).eq_zero_iff, mul_eq_zero, or_iff_left hpower, Nat.cast_eq_zero]
  rw [magnitude?_eq, if_neg (not_lt.mpr hlarge)]
  split
  · rename_i h
    refine ⟨nofun, fun ⟨hpositive, hne⟩ => ?_⟩
    rcases h with h | h
    · exact absurd (hzero.mpr h) hne
    · rw [hpositive] at h
      cases h
  · rename_i h
    obtain ⟨hne, hpositive⟩ := not_or.mp h
    exact ⟨fun _ => ⟨Bool.eq_false_iff.mpr hpositive, mt hzero.mp hne⟩, fun _ => rfl⟩

end NumberScan

/-! ## What a literal stands for -/

/-- The number that digits write. -/
def decimal (digits : List Char) : Nat := Nat.ofDigitChars 10 digits 0

theorem digitValue_lt {c : Char} (h : c.isDigit = true) : digitValue c < 10 := by
  have hlast : c.toNat ≤ 57 := (Char.isDigit_iff_toNat.mp h).2
  show c.toNat - 48 < 10
  omega

/-- A whole part is made of digits. -/
theorem IsWhole.isDigit {text : List Char} (h : IsWhole text) : ∀ c ∈ text, c.isDigit = true := by
  cases h with
  | zero => exact List.forall_mem_singleton.mpr rfl
  | digits _ hc hrest =>
    intro c hmem
    rcases List.mem_cons.mp hmem with rfl | hmem
    · exact hc
    · exact hrest c hmem

/-- Behind its point, so is a fraction. -/
theorem IsFraction.isDigit_tail {text : List Char} (h : IsFraction text) :
    ∀ c ∈ text.tail, c.isDigit = true := by
  cases h with
  | none => exact fun c hc => nomatch hc
  | digits hdigits => exact hdigits.2

namespace Numeral

/-- The number that the whole part writes. -/
def wholeValue (n : Numeral) : Nat := decimal n.whole

/-- The amount of the exponent, without its sign. -/
def exponentAmount (n : Numeral) : Nat := decimal n.exponentDigits

/-- The power of ten that the exponent names. -/
def power (n : Numeral) : ℤ :=
  if '-' ∈ n.exponent then -(n.exponentAmount : ℤ) else n.exponentAmount

/-- The number that the literal writes, without its sign and exactly. -/
def magnitude (n : Numeral) : ℚ :=
  decimal (n.whole ++ n.fraction.tail) * 10 ^ (n.power - n.fraction.tail.length)

/-- The literal has neither a fraction nor an exponent. -/
def IsInteger (n : Numeral) : Prop := n.fraction = [] ∧ n.exponent = []

/-- The literal is a row of digits without a sign, of a number of 64 bits. -/
def IsNatural (n : Numeral) : Prop := n.sign = [] ∧ n.IsInteger ∧ n.wholeValue < 2 ^ 64

/-- The literal is a row of digits behind a minus sign, of a number from `-2 ^ 63` on other
    than zero. -/
def IsNegative (n : Numeral) : Prop :=
  n.sign = ['-'] ∧ n.IsInteger ∧ 0 < n.wholeValue ∧ n.wholeValue ≤ 2 ^ 63

instance (n : Numeral) : Decidable n.IsInteger := inferInstanceAs (Decidable (_ ∧ _))

instance (n : Numeral) : Decidable n.IsNatural := inferInstanceAs (Decidable (_ ∧ _))

instance (n : Numeral) : Decidable n.IsNegative := inferInstanceAs (Decidable (_ ∧ _))

/-- Every literal but those of integers within their range stands for a double, if for
    anything. -/
theorem value?_scan (n : Numeral) :
    n.scan.value? =
      if n.IsNatural then some (.integer n.wholeValue)
      else if n.IsNegative then some (.integer (-n.wholeValue))
      else n.scan.double? := by
  have hwhole : ofDigits 0 n.scan.whole.reverse = n.wholeValue := by
    rw [scan, List.reverse_reverse]
    exact ofDigits_digitValue n.whole
  by_cases hinteger : n.IsInteger
  · -- a scan that ends in the whole part settles it by the size of that
    have hplace : n.scan.place = .zero ∨ n.scan.place = .whole := by
      show n.place = _ ∨ n.place = _
      rw [place, hinteger.1, hinteger.2, if_neg (not_not.mpr rfl), if_neg (not_not.mpr rfl)]
      split
      · exact Or.inl rfl
      · exact Or.inr rfl
    have hvalue : n.scan.value? =
        if n.scan.negative then
          if 0 < n.wholeValue ∧ n.wholeValue ≤ 2 ^ 63 then some (.integer (-n.wholeValue))
          else n.scan.double?
        else if n.wholeValue < 2 ^ 64 then some (.integer n.wholeValue)
        else n.scan.double? := by
      rw [← hwhole]
      rcases hplace with hplace | hplace <;> simp only [NumberScan.value?, hplace] <;> rfl
    rw [hvalue]
    rcases n.hsign with hsign | hsign <;> simp [IsNatural, IsNegative, hinteger, hsign, scan]
  · -- any other is a double, whatever the value
    have hplace : n.scan.place = .fraction ∨ n.scan.place = .exponent := by
      show n.place = _ ∨ n.place = _
      rw [place]
      split
      · exact Or.inr rfl
      · rename_i hexponent
        rw [if_pos fun hfraction => hinteger ⟨hfraction, not_not.mp hexponent⟩]
        exact Or.inl rfl
    rw [if_neg fun h => hinteger h.2.1, if_neg fun h => hinteger h.2.1]
    rcases hplace with hplace | hplace <;> simp only [NumberScan.value?, hplace]

theorem digits_scan (n : Numeral) :
    n.scan.digits = (n.whole ++ n.fraction.tail).map digitValue := by
  rw [NumberScan.digits, scan, List.reverse_reverse, List.reverse_reverse, List.map_append]

theorem digits_lt (n : Numeral) : ∀ d ∈ n.scan.digits, d < 10 := by
  intro d hd
  rw [digits_scan, List.mem_map] at hd
  obtain ⟨c, hc, rfl⟩ := hd
  rcases List.mem_append.mp hc with hc | hc
  · exact digitValue_lt (n.hwhole.isDigit c hc)
  · exact digitValue_lt (n.hfraction.isDigit_tail c hc)

theorem exponentAmount_scan (n : Numeral) : n.scan.exponentAmount = n.exponentAmount := by
  rw [NumberScan.exponentAmount, scan, List.reverse_reverse]
  exact ofDigits_digitValue n.exponentDigits

theorem exactMagnitude_scan (n : Numeral) : n.scan.exactMagnitude = n.magnitude := by
  have hpower : n.scan.power = n.power := by
    rw [NumberScan.power, power, exponentAmount_scan]
    simp only [scan, decide_eq_true_eq]
  have hlength : n.scan.fraction.length = n.fraction.tail.length := by
    rw [scan, List.length_reverse, List.length_map]
  rw [NumberScan.exactMagnitude, magnitude, hpower, hlength, digits_scan, ofDigits_digitValue]
  rfl

/-- Without fraction and exponent, a literal writes its whole part. -/
theorem magnitude_of_isInteger {n : Numeral} (h : n.IsInteger) : n.magnitude = n.wholeValue := by
  have hpower : n.power = 0 := by
    simp [power, exponentAmount, exponentDigits, h.2, decimal]
  rw [magnitude, hpower, h.1]
  simp [wholeValue]

end Numeral

end StreamBuffer
