/-
This file proves that the cost of a sample is a faithful fixed-point logarithm. The
loop keeps a normalized value, between 2^63 and 2^64, and a fraction whose lower bits
are not settled yet. One step squares the value, halves it if it is too big, and
settles one bit. A step keeps the order of values, and keeps their logarithm up to
the rounding of one division.
-/

import Unbounded.Ranking

namespace Unbounded.Topology

open Real

/-! ### One bit -/

/-- The highest bit of the value is the last one of a word. -/
def Normalized (value : Nat) : Prop := 2 ^ 63 ≤ value ∧ value < 2 ^ 64

/-- The bit a step settles. -/
def costDigit (value : Nat) : Nat := if 2 ^ 127 ≤ value * value then 1 else 0

/-- The normalized value after a step: its square, over the bit and rounded down. -/
def costNext (value : Nat) : Nat := value * value / 2 ^ (63 + costDigit value)

variable {value other fraction : Nat}

theorem costStep_eq {bit : Nat} (opens : 2 ^ (bit + 1) ∣ fraction) :
    costStep (value, fraction) bit = (costNext value, fraction + costDigit value * 2 ^ bit) := by
  have big : 2 ^ 64 ≤ value * value / 2 ^ 63 ↔ 2 ^ 127 ≤ value * value := by
    rw [Nat.le_div_iff_mul_le (by positivity)]
    norm_num
  obtain ⟨settled, rfl⟩ := opens
  have joined : 2 ^ (bit + 1) * settled ||| 1 <<< bit = 2 ^ (bit + 1) * settled + 2 ^ bit := by
    rw [Nat.mul_comm, ← Nat.shiftLeft_eq, Nat.one_shiftLeft]
    exact (Nat.shiftLeft_add_eq_or_of_lt (Nat.pow_lt_pow_right (by decide) bit.lt_succ_self) _).symm
  simp only [costStep, costNext, costDigit, Nat.shiftRight_eq_div_pow, big]
  split
  · rw [joined, Nat.div_div_eq_div_mul, ← pow_add, Nat.one_mul]
  · simp only [Nat.zero_mul, Nat.add_zero]

theorem normalized_costNext (normalized : Normalized value) : Normalized (costNext value) := by
  have lower : 2 ^ 63 * 2 ^ 63 ≤ value * value := Nat.mul_le_mul normalized.1 normalized.1
  have upper : value * value < 2 ^ 64 * 2 ^ 64 := Nat.mul_lt_mul'' normalized.2 normalized.2
  unfold Normalized costNext costDigit
  split <;> omega

/-- What rounding down to a normalized value loses at most, as a logarithm. -/
noncomputable def rounding : ℝ := logb 2 (1 + 1 / 2 ^ 63)

theorem rounding_le : 2 ^ 32 * rounding ≤ 1 := by
  have small : log (1 + 1 / 2 ^ 63) ≤ 1 / 2 ^ 63 := by
    have bound := log_le_sub_one_of_pos (show (0 : ℝ) < 1 + 1 / 2 ^ 63 by positivity)
    linarith
  have half : (1 : ℝ) / 2 ≤ log 2 := by linarith [log_two_gt_d9]
  have positive : (0 : ℝ) < log 2 := by linarith
  rw [rounding, logb, ← mul_div_assoc, div_le_one positive]
  calc 2 ^ 32 * log (1 + 1 / 2 ^ 63) ≤ 2 ^ 32 * (1 / 2 ^ 63) := by gcongr
    _ ≤ 1 / 2 := by norm_num
    _ ≤ log 2 := half

theorem logb_mul_pow {scaled : ℝ} (positive : 0 < scaled) (power : Nat) :
    logb 2 (scaled * 2 ^ power) = logb 2 scaled + power := by
  rw [logb_mul positive.ne' (by positivity), logb_pow, logb_self_eq_one (by norm_num), mul_one]

/-- A step doubles the logarithm, up to rounding. -/
theorem costNext_log (normalized : Normalized value) :
    costDigit value + (logb 2 (costNext value) - 63) ≤ 2 * (logb 2 value - 63) ∧
      2 * (logb 2 value - 63) ≤ costDigit value + (logb 2 (costNext value) - 63) + rounding := by
  have next := normalized_costNext normalized
  have positive : (0 : ℝ) < value := by exact_mod_cast lt_of_lt_of_le (by decide) normalized.1
  have nextLe : (2 : ℝ) ^ 63 ≤ costNext value := by exact_mod_cast next.1
  have nextPos : (0 : ℝ) < costNext value := lt_of_lt_of_le (by positivity) nextLe
  have square : 2 * logb 2 value = logb 2 ((value : ℝ) ^ 2) := by
    rw [logb_pow, Nat.cast_ofNat]
  have lower : (costNext value : ℝ) * 2 ^ (63 + costDigit value) ≤ (value : ℝ) ^ 2 := by
    rw [pow_two]
    exact_mod_cast Nat.div_mul_le_self (value * value) _
  have upper : (value : ℝ) ^ 2 ≤
      costNext value * (1 + 1 / 2 ^ 63) * 2 ^ (63 + costDigit value) := by
    have less : (value : ℝ) ^ 2 ≤ (costNext value + 1) * 2 ^ (63 + costDigit value) := by
      rw [pow_two, mul_comm (_ + 1)]
      exact_mod_cast (Nat.lt_mul_div_succ (value * value) (by positivity)).le
    refine less.trans ?_
    gcongr
    rw [mul_add, mul_one, mul_one_div, add_le_add_iff_left, one_le_div (by positivity)]
    exact nextLe
  constructor
  · have logs := logb_le_logb_of_le (by norm_num : (1 : ℝ) < 2) (by positivity) lower
    rw [logb_mul_pow nextPos] at logs
    push_cast at logs
    linarith
  · have logs := logb_le_logb_of_le (by norm_num : (1 : ℝ) < 2) (by positivity) upper
    rw [logb_mul_pow (by positivity), logb_mul nextPos.ne' (by positivity)] at logs
    push_cast at logs
    rw [rounding]
    linarith

/-! ### All bits -/

/-- The loop, after some of its lower bits. -/
def costBits (bits taken value fraction : Nat) : Nat × Nat :=
  ((List.range bits).reverse.take taken).foldl costStep (value, fraction)

theorem costBits_succ {bits : Nat} (taken : Nat) (opens : 2 ^ (bits + 1) ∣ fraction) :
    costBits (bits + 1) (taken + 1) value fraction =
      costBits bits taken (costNext value) (fraction + costDigit value * 2 ^ bits) := by
  unfold costBits
  rw [List.range_succ, List.reverse_concat, List.take_succ_cons, List.foldl_cons, costStep_eq opens]

theorem opens_succ {bits : Nat} (opens : 2 ^ (bits + 1) ∣ fraction) (digit : Nat) :
    2 ^ bits ∣ fraction + digit * 2 ^ bits :=
  ((pow_dvd_pow 2 bits.le_succ).trans opens).add (Nat.dvd_mul_left _ _)

theorem costDigit_le (value : Nat) : costDigit value ≤ 1 := by
  unfold costDigit
  split <;> decide

/-- The value stays normalized, and the bits that are open bound the fraction. -/
theorem costBits_bounds {bits : Nat} (taken : Nat) (normalized : Normalized value)
    (opens : 2 ^ bits ∣ fraction) :
    Normalized (costBits bits taken value fraction).1 ∧
      fraction ≤ (costBits bits taken value fraction).2 ∧
      (costBits bits taken value fraction).2 < fraction + 2 ^ bits := by
  induction bits generalizing value fraction taken with
  | zero => simp [costBits, normalized]
  | succ bits ih =>
    cases taken with
    | zero => simp [costBits, normalized]
    | succ taken =>
      obtain ⟨next, _⟩ := ih taken (normalized_costNext normalized)
        (opens_succ opens (costDigit value))
      have digit := Nat.mul_le_mul_right (2 ^ bits) (costDigit_le value)
      rw [costBits_succ taken opens]
      refine ⟨next, by omega, ?_⟩
      omega

/-- The loop keeps the scaled logarithm: what the fraction gains, the value loses. -/
theorem costBits_log (bits : Nat) (normalized : Normalized value) (opens : 2 ^ bits ∣ fraction) :
    let result := costBits bits bits value fraction
    result.2 + (logb 2 result.1 - 63) ≤ fraction + 2 ^ bits * (logb 2 value - 63) ∧
      fraction + 2 ^ bits * (logb 2 value - 63) ≤
        result.2 + (logb 2 result.1 - 63) + (2 ^ bits - 1) * rounding := by
  induction bits generalizing value fraction with
  | zero => simp [costBits]
  | succ bits ih =>
    obtain ⟨lower, upper⟩ := costNext_log normalized
    obtain ⟨above, below⟩ := ih (normalized_costNext normalized)
      (opens_succ opens (costDigit value))
    have lower := mul_le_mul_of_nonneg_left lower (show (0 : ℝ) ≤ 2 ^ bits by positivity)
    have upper := mul_le_mul_of_nonneg_left upper (show (0 : ℝ) ≤ 2 ^ bits by positivity)
    rw [costBits_succ bits opens]
    push_cast at above below
    rw [pow_succ]
    constructor <;> linarith

/-- The loop keeps the order of the values. -/
theorem costBits_mono (bits : Nat) (normalized : Normalized value) (larger : Normalized other)
    (ordered : value ≤ other) (opens : 2 ^ bits ∣ fraction) :
    (costBits bits bits value fraction).2 ≤ (costBits bits bits other fraction).2 := by
  induction bits generalizing value other fraction with
  | zero => exact le_rfl
  | succ bits ih =>
    have squares : value * value ≤ other * other := Nat.mul_le_mul ordered ordered
    have next := normalized_costNext normalized
    have later := normalized_costNext larger
    rw [costBits_succ bits opens, costBits_succ bits opens]
    by_cases same : costDigit value = costDigit other
    · rw [same]
      refine ih next later ?_ (opens_succ opens _)
      unfold costNext
      rw [same]
      exact Nat.div_le_div_right squares
    · -- the first bit that differs decides
      obtain ⟨zero, one⟩ : costDigit value = 0 ∧ costDigit other = 1 := by
        unfold costDigit at same ⊢
        split at same <;> split at same <;> simp_all
        omega
      have below := (costBits_bounds bits next (opens_succ opens (costDigit value))).2.2
      have above := (costBits_bounds bits later (opens_succ opens (costDigit other))).2.1
      rw [zero] at below ⊢
      rw [one] at above ⊢
      omega

/-! ### The cost -/

/-- The logarithm the cost stands for. -/
noncomputable def exactCost (sample : Nat) : ℝ := -2 ^ 32 * logb 2 ((sample + 1) / 2 ^ 64)

/-- The value the loop starts with. -/
def startValue (sample : Nat) : Nat := (sample + 1) <<< (63 - (sample + 1).log2)

variable {sample : Nat}

theorem normalized_startValue (short : (sample + 1).log2 < 64) :
    Normalized (startValue sample) := by
  have lower := Nat.log2_self_le (Nat.succ_ne_zero sample)
  have upper : sample + 1 < 2 ^ ((sample + 1).log2 + 1) := Nat.lt_log2_self
  unfold Normalized startValue
  rw [Nat.shiftLeft_eq]
  constructor
  · calc 2 ^ 63 = 2 ^ (sample + 1).log2 * 2 ^ (63 - (sample + 1).log2) := by
          rw [← pow_add]; congr 1; omega
      _ ≤ _ := Nat.mul_le_mul_right _ lower
  · calc _ < 2 ^ ((sample + 1).log2 + 1) * 2 ^ (63 - (sample + 1).log2) :=
          Nat.mul_lt_mul_of_pos_right upper (by positivity)
      _ = 2 ^ 64 := by rw [← pow_add]; congr 1; omega

theorem exponentialCost_eq (short : (sample + 1).log2 < 64) : exponentialCost sample =
      (64 - (sample + 1).log2) <<< 32 - (costBits 32 32 (startValue sample) 0).2 := by
  unfold exponentialCost
  rw [if_neg short.ne]
  rfl

theorem eq_max_of_log2 (fits : sample < 2 ^ 64) (long : ¬ (sample + 1).log2 < 64) :
    sample = 2 ^ 64 - 1 := by
  rw [Nat.log2_lt (Nat.succ_ne_zero sample)] at long
  omega

theorem startValue_log (short : (sample + 1).log2 < 64) :
    logb 2 (startValue sample) - 63 = logb 2 (sample + 1 : ℝ) - (sample + 1).log2 := by
  unfold startValue
  rw [Nat.shiftLeft_eq]
  push_cast
  rw [logb_mul_pow (by positivity), Nat.cast_sub (by omega)]
  ring

/-- A sample of a smaller exponent costs more than one of a larger exponent. -/
theorem exponentialCost_bounds (short : (sample + 1).log2 < 64) :
    (63 - (sample + 1).log2) * 2 ^ 32 < exponentialCost sample ∧
      exponentialCost sample ≤ (64 - (sample + 1).log2) * 2 ^ 32 := by
  have fraction := (costBits_bounds 32 (normalized_startValue short) (dvd_zero (2 ^ 32))).2.2
  rw [exponentialCost_eq short]
  omega

theorem exponentialCost_max : exponentialCost (2 ^ 64 - 1) = 1 := by
  unfold exponentialCost
  dsimp only
  rw [Nat.sub_add_cancel Nat.one_le_two_pow, Nat.log2_two_pow, if_pos rfl]

theorem exponentialCost_pos (fits : sample < 2 ^ 64) : 1 ≤ exponentialCost sample := by
  by_cases short : (sample + 1).log2 < 64
  · exact Nat.one_le_iff_ne_zero.mpr (Nat.ne_zero_of_lt (exponentialCost_bounds short).1)
  · rw [eq_max_of_log2 fits short, exponentialCost_max]

theorem exponentialCost_anti {later : Nat} (fits : later < 2 ^ 64) (ordered : sample ≤ later) :
    exponentialCost later ≤ exponentialCost sample := by
  by_cases long : (later + 1).log2 < 64
  · have logs : (sample + 1).log2 ≤ (later + 1).log2 := by
      rw [Nat.log2_eq_log_two, Nat.log2_eq_log_two]
      exact Nat.log_mono_right (Nat.succ_le_succ ordered)
    have short := lt_of_le_of_lt logs long
    rcases logs.eq_or_lt with same | _
    · have starts : startValue sample ≤ startValue later := by
        unfold startValue
        rw [same, Nat.shiftLeft_eq, Nat.shiftLeft_eq]
        exact Nat.mul_le_mul_right _ (Nat.succ_le_succ ordered)
      have fractions := costBits_mono 32 (normalized_startValue short) (normalized_startValue long)
        starts (dvd_zero (2 ^ 32))
      rw [exponentialCost_eq short, exponentialCost_eq long, same]
      exact Nat.sub_le_sub_left fractions _
    · have above := (exponentialCost_bounds short).1
      have below := (exponentialCost_bounds long).2
      omega
  · rw [eq_max_of_log2 fits long]
    exact exponentialCost_pos (by omega)

theorem exponentialCost_near (fits : sample < 2 ^ 64) : exactCost sample ≤ exponentialCost sample ∧
      (exponentialCost sample : ℝ) < exactCost sample + 2 := by
  by_cases short : (sample + 1).log2 < 64
  · have start := normalized_startValue short
    obtain ⟨⟨least, most⟩, -, _⟩ := costBits_bounds 32 start (dvd_zero (2 ^ 32))
    obtain ⟨lower, upper⟩ := costBits_log 32 start (dvd_zero (2 ^ 32))
    rw [startValue_log short] at lower upper
    have cost : (exponentialCost sample : ℝ) = (64 - (sample + 1).log2) * 2 ^ 32 -
        (costBits 32 32 (startValue sample) 0).2 := by
      rw [exponentialCost_eq short, Nat.shiftLeft_eq, Nat.cast_sub (by omega), Nat.cast_mul,
        Nat.cast_sub (by omega)]
      norm_num
    have exact : exactCost sample = 2 ^ 32 * (64 - logb 2 (sample + 1 : ℝ)) := by
      rw [exactCost, logb_div (by positivity) (by positivity), logb_pow,
        logb_self_eq_one (by norm_num)]
      ring
    generalize costBits 32 32 (startValue sample) 0 = result at *
    have positive : (0 : ℝ) < result.1 := by exact_mod_cast lt_of_lt_of_le (by decide) least
    have nonneg : (63 : ℝ) ≤ logb 2 result.1 := by
      rw [le_logb_iff_rpow_le (by norm_num) positive]
      exact_mod_cast least
    have less : logb 2 result.1 < 64 := by
      rw [logb_lt_iff_lt_rpow (by norm_num) positive]
      exact_mod_cast most
    have small := rounding_le
    push_cast at lower upper
    constructor <;> linarith
  · rw [eq_max_of_log2 fits short, exponentialCost_max, exactCost]
    norm_num

/-- The cost is a faithful fixed-point logarithm. For every sample of 64 bits the loop stays within
its words: the value it squares, the fraction, and the difference it returns. The cost lies between
1 and 64 in fixed point, never rises with the sample, and is the exact logarithm or less than two
units above it. -/
theorem exponential_cost_faithful (fits : sample < 2 ^ 64) :
    ((sample + 1).log2 = 64 ∨ (sample + 1).log2 < 64 ∧
        (∀ taken, (costBits 32 taken (startValue sample) 0).1 < 2 ^ 64 ∧
          (costBits 32 taken (startValue sample) 0).1 ^ 2 < 2 ^ 128 ∧
          (costBits 32 taken (startValue sample) 0).2 < 2 ^ 64) ∧
        (64 - (sample + 1).log2) <<< 32 < 2 ^ 64 ∧
        (costBits 32 32 (startValue sample) 0).2 ≤ (64 - (sample + 1).log2) <<< 32) ∧
      1 ≤ exponentialCost sample ∧ exponentialCost sample ≤ 64 * 2 ^ 32 ∧
      (∀ later, sample ≤ later → later < 2 ^ 64 → exponentialCost later ≤ exponentialCost sample) ∧
      exactCost sample ≤ exponentialCost sample ∧
      (exponentialCost sample : ℝ) < exactCost sample + 2 := by
  refine ⟨?_, exponentialCost_pos fits, ?_, fun later ordered fits =>
    exponentialCost_anti fits ordered, exponentialCost_near fits⟩
  · by_cases short : (sample + 1).log2 < 64
    · have start := normalized_startValue short
      refine .inr ⟨short, fun taken => ?_, ?_, ?_⟩
      · obtain ⟨⟨-, most⟩, -, below⟩ := costBits_bounds taken start (dvd_zero (2 ^ 32))
        refine ⟨most, ?_, by omega⟩
        calc _ < (2 ^ 64) ^ 2 := Nat.pow_lt_pow_left most (by decide)
          _ = 2 ^ 128 := by norm_num
      · omega
      · have below := (costBits_bounds 32 start (dvd_zero (2 ^ 32))).2.2
        omega
    · rw [eq_max_of_log2 fits short]
      exact .inl rfl
  · by_cases short : (sample + 1).log2 < 64
    · exact (exponentialCost_bounds short).2.trans (Nat.mul_le_mul_right _ (Nat.sub_le _ _))
    · rw [eq_max_of_log2 fits short]
      decide

/-- A mantissa of one and a half, whose square is halved at the first bit. -/
theorem exponential_cost_faithful_half :
    (2 : Nat) < 2 ^ 64 ∧ exponentialCost 2 = 268070544839 ∧
      exactCost 2 ≤ exponentialCost 2 ∧ (exponentialCost 2 : ℝ) < exactCost 2 + 2 :=
  ⟨by decide, by decide +kernel, (exponential_cost_faithful (by decide)).2.2.2.2⟩

end Unbounded.Topology
