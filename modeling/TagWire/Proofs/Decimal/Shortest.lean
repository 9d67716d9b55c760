import TagWire.Decimal.Numeral
import TagWire.Decimal.Shortest
import TagWire.Proofs.Binary

/-!
# Shortest decimals

The decimal that is found for a floating-point number is near to it, and bits are found for decimals by
the number that they are near to.

- `Decimal.shortest_near`: the decimal of a number.
- `Decimal.Numeral.bitsOfScaled_near`: the number of a decimal.
-/

namespace TagWire.Decimal

open Binary (Format)

/-- The number that a decimal stands for. -/
def Scaled.value (d : Scaled) : ℚ := d.digits * 10 ^ d.power

/-- Decimals are compared as the numbers that they stand for. -/
theorem compareScaled_eq (d : Scaled) (s : Nat) (q : Int) :
    compareScaled d s q = compare d.value (s * 2 ^ q : ℚ) := by
  have ten : (10 : ℚ) ≠ 0 := by norm_num
  have scale_pos : (0 : ℚ) < 10 ^ (-d.power).toNat * 2 ^ (-q).toNat := by positivity
  have left : ((d.digits * 10 ^ d.power.toNat * 2 ^ (-q).toNat : Nat) : ℚ) =
      d.value * (10 ^ (-d.power).toNat * 2 ^ (-q).toNat) := by
    rw [Scaled.value, Binary.zpow_eq_div ten]
    push_cast
    field_simp
  have right : ((s * 2 ^ q.toNat * 10 ^ (-d.power).toNat : Nat) : ℚ) =
      s * 2 ^ q * (10 ^ (-d.power).toNat * 2 ^ (-q).toNat) := by
    rw [Binary.zpow_eq_div two_ne_zero]
    push_cast
    field_simp
  rw [compareScaled]
  simp only [Nat.pow_eq]
  rcases lt_trichotomy d.value (s * 2 ^ q) with less | same | more
  · have scaled := mul_lt_mul_of_pos_right less scale_pos
    rw [← left, ← right] at scaled
    rw [compare_lt_iff_lt.mpr less, compare_lt_iff_lt]
    exact_mod_cast scaled
  · have scaled := congrArg (· * (10 ^ (-d.power).toNat * 2 ^ (-q).toNat : ℚ)) same
    rw [← left, ← right] at scaled
    rw [compare_eq_iff_eq.mpr same, compare_eq_iff_eq]
    exact_mod_cast scaled
  · have scaled := mul_lt_mul_of_pos_right more scale_pos
    rw [← left, ← right] at scaled
    rw [compare_gt_iff_gt.mpr more, compare_gt_iff_gt]
    exact_mod_cast scaled

variable {f : Format} {tie : Tie} {s : Nat} {q : Int}

/-- A decimal that reads back is near to the number. -/
theorem near_of_readsBack {d : Scaled} (s_pos : 0 < s) (reads : readsBack f s q d = true) :
    f.Near s q d.value := by
  have quarter_step : (2 : ℚ) ^ q = 4 * 2 ^ (q - 2) := by
    rw [zpow_sub₀ two_ne_zero]
    norm_num
    ring
  have s_cast : (1 : ℚ) ≤ s := by exact_mod_cast s_pos
  have low_end : ((if s = 2 ^ f.fraction ∧ f.lowest < q then 4 * s - 1 else 4 * s - 2 : Nat) : ℚ) *
      2 ^ (q - 2) = (s - f.margin s q) * 2 ^ q := by
    rw [quarter_step, Format.margin]
    split
    · rw [Nat.cast_sub (by omega)]
      push_cast
      ring
    · rw [Nat.cast_sub (by omega)]
      push_cast
      ring
  have high_end : ((4 * s + 2 : Nat) : ℚ) * 2 ^ (q - 2) = (s + 1 / 2) * 2 ^ q := by
    rw [quarter_step]
    push_cast
    ring
  simp only [readsBack, Nat.pow_eq, compareScaled_eq, low_end, high_end, decide_eq_true_eq,
    compare_gt_iff_gt, compare_lt_iff_lt, compare_eq_iff_eq] at reads
  obtain ⟨low, high⟩ := reads
  exact ⟨low.imp_right (And.imp_right Eq.symm), high⟩

theorem nearestOn_reads {power : Int} {d : Scaled} (found : nearestOn f tie s q power = some d) :
    readsBack f s q d = true := by
  unfold nearestOn at found
  dsimp only at found
  split at found
  · cases found
  · cases found
    assumption
  · cases found
    assumption
  · split at found
    · cases found
      assumption
    · cases found
      assumption
    · split at found <;> (cases found; assumption)

theorem searchGrids_reads {grids : Nat} {power : Int} {d : Scaled}
    (found : searchGrids f tie s q grids power = some d) : readsBack f s q d = true := by
  induction grids generalizing power with
  | zero => cases found
  | succ grids ih =>
    rw [searchGrids] at found
    cases nearest : nearestOn f tie s q power with
    | some d' =>
      rw [nearest] at found
      cases found
      exact nearestOn_reads nearest
    | none =>
      rw [nearest] at found
      exact ih found

theorem stripZeros_value (fuel : Nat) (d : Scaled) : (stripZeros fuel d).value = d.value := by
  induction fuel generalizing d with
  | zero => rfl
  | succ fuel ih =>
    rw [stripZeros]
    split
    · rename_i trailing
      have split := Nat.div_add_mod d.digits 10
      rw [trailing.2, Nat.add_zero] at split
      rw [ih, Scaled.value, Scaled.value, ← split, zpow_add_one₀ (by norm_num)]
      push_cast
      rw [Nat.mul_div_cancel_left _ (by decide)]
      ring
    · rfl

/-- A number is a decimal with enough digits. -/
theorem exact_value (s : Nat) (q : Int) :
    (if 0 ≤ q then (⟨s * 2 ^ q.toNat, 0⟩ : Scaled) else ⟨s * 5 ^ (-q).toNat, q⟩).value =
      s * 2 ^ q := by
  split
  · rename_i whole
    have power : (2 : ℚ) ^ q = 2 ^ q.toNat := by
      rw [← zpow_natCast, Int.toNat_of_nonneg whole]
    rw [Scaled.value, power, zpow_zero]
    push_cast
    ring
  · rename_i fraction
    have power : (-q).toNat = -q := Int.toNat_of_nonneg (by omega)
    have fives : (5 : ℚ) ^ (-q).toNat * 10 ^ q = 2 ^ q := by
      rw [← zpow_natCast, power, zpow_neg, show (10 : ℚ) = 5 * 2 by norm_num, mul_zpow]
      field_simp
    rw [Scaled.value]
    push_cast
    rw [mul_assoc, fives]

/-- The decimal that is found for a positive number is near to it. -/
theorem shortest_near (f : Format) (tie : Tie) (s_pos : 0 < s) :
    f.Near s q (shortest f tie s q).value := by
  rw [shortest, stripZeros_value]
  cases found : searchGrids f tie s q 17 (magnitude s q - 1) with
  | some d => exact near_of_readsBack s_pos (searchGrids_reads found)
  | none =>
    simp only [Nat.pow_eq]
    rw [Option.getD_none, exact_value]
    exact f.near_self s q

/-- The digits of a positive number tell its power of ten. -/
theorem toDigits_bounds {n : Nat} (n_pos : 0 < n) :
    10 ^ ((Nat.toDigits 10 n).length - 1) ≤ n ∧ n < 10 ^ (Nat.toDigits 10 n).length := by
  have some_digit : 0 < (Nat.toDigits 10 n).length := Nat.length_toDigits_pos
  refine ⟨?_, (Nat.length_toDigits_le_iff (by decide) some_digit).mp le_rfl⟩
  rcases Nat.eq_zero_or_pos ((Nat.toDigits 10 n).length - 1) with one | more
  · rwa [one, pow_zero]
  · rw [← Nat.not_lt, ← Nat.length_toDigits_le_iff (by decide) more]
    omega

theorem value_bounds {d : Scaled} (digits_pos : 0 < d.digits) :
    (10 : ℚ) ^ (d.power + (Nat.toDigits 10 d.digits).length - 1) ≤ d.value ∧
      d.value < 10 ^ (d.power + (Nat.toDigits 10 d.digits).length) := by
  have ten : (10 : ℚ) ≠ 0 := by norm_num
  have step_pos : (0 : ℚ) < 10 ^ d.power := by positivity
  have some_digit : 0 < (Nat.toDigits 10 d.digits).length := Nat.length_toDigits_pos
  obtain ⟨low, high⟩ := toDigits_bounds digits_pos
  have low_cast : (10 : ℚ) ^ ((Nat.toDigits 10 d.digits).length - 1) ≤ d.digits := by
    exact_mod_cast low
  have high_cast : (d.digits : ℚ) < 10 ^ (Nat.toDigits 10 d.digits).length := by exact_mod_cast high
  constructor
  · have split : d.power + (Nat.toDigits 10 d.digits).length - 1 =
        ((Nat.toDigits 10 d.digits).length - 1 : Nat) + d.power := by omega
    rw [split, zpow_add₀ ten, zpow_natCast]
    exact mul_le_mul_of_nonneg_right low_cast step_pos.le
  · rw [add_comm, zpow_add₀ ten, zpow_natCast]
    exact mul_lt_mul_of_pos_right high_cast step_pos

/-- What is near to a float64 is no less than half of the least one. -/
theorem value_least {x : ℚ} (s_pos : 0 < s) (lowest : Binary.double.lowest ≤ q)
    (near : Binary.double.Near s q x) : (2 : ℚ) ^ (-(1075 : Nat) : Int) ≤ x := by
  have s_cast : (1 : ℚ) ≤ s := by exact_mod_cast s_pos
  have margin := Binary.double.margin_le s q
  have step_pos : (0 : ℚ) < 2 ^ q := by positivity
  have half : (2 : ℚ) ^ (-(1075 : Nat) : Int) ≤ 1 / 2 * 2 ^ q := by
    rw [one_div, ← zpow_neg_one, ← zpow_add₀ two_ne_zero]
    rw [Binary.lowest_double] at lowest
    exact zpow_le_zpow_right₀ (by norm_num) (by omega)
  have low_end : 1 / 2 * 2 ^ q ≤ (s - Binary.double.margin s q) * 2 ^ q :=
    mul_le_mul_of_nonneg_right (by linarith) step_pos.le
  exact half.trans (low_end.trans near.at_least)

/-- What is near to a float64 is less than the least power of two that is none. -/
theorem value_greatest {x : ℚ} (high : q ≤ 971) (bound : s < 2 ^ (Binary.double.fraction + 1))
    (near : Binary.double.Near s q x) : x < (2 : ℚ) ^ (1024 : Nat) := by
  have bound_cast : (s : ℚ) + 1 ≤ 2 ^ 53 := by exact_mod_cast bound
  have step_pos : (0 : ℚ) < 2 ^ q := by positivity
  have high_end : (s + 1 / 2) * 2 ^ q < (2 : ℚ) ^ 53 * 2 ^ q :=
    mul_lt_mul_of_pos_right (by linarith) step_pos
  have whole : (2 : ℚ) ^ 53 * 2 ^ q ≤ 2 ^ (1024 : Nat) := by
    rw [← zpow_natCast, ← zpow_natCast, ← zpow_add₀ two_ne_zero]
    exact zpow_le_zpow_right₀ (by norm_num) (by omega)
  exact near.at_most.trans_lt (high_end.trans_le whole)

/-- What is near to a float64 is within reach of its exponents. -/
theorem within_reach {d : Scaled} (digits_pos : 0 < d.digits) (s_pos : 0 < s)
    (bound : s < 2 ^ (Binary.double.fraction + 1)) (lowest : Binary.double.lowest ≤ q) (high : q ≤ 971)
    (near : Binary.double.Near s q d.value) :
    -1076 ≤ d.power + (Nat.toDigits 10 d.digits).length ∧
      d.power + (Nat.toDigits 10 d.digits).length ≤ 1076 := by
  obtain ⟨from_ten, to_ten⟩ := value_bounds digits_pos
  constructor
  · by_contra below
    have less : d.value < 10 ^ (-(1075 : Nat) : Int) :=
      to_ten.trans_le (zpow_le_zpow_right₀ (by norm_num) (by omega))
    have least := value_least s_pos lowest near
    have tens : (10 : ℚ) ^ (-(1075 : Nat) : Int) ≤ 2 ^ (-(1075 : Nat) : Int) := by
      rw [zpow_neg, zpow_neg, zpow_natCast, zpow_natCast]
      exact inv_anti₀ (by positivity) (pow_le_pow_left₀ (by norm_num) (by norm_num) _)
    exact absurd (less.trans_le tens) (not_lt.mpr least)
  · by_contra above
    have more : (10 : ℚ) ^ (1024 : Nat) ≤ d.value := by
      rw [← zpow_natCast]
      exact (zpow_le_zpow_right₀ (by norm_num) (by omega)).trans from_ten
    have greatest := value_greatest high bound near
    have tens : (2 : ℚ) ^ (1024 : Nat) ≤ 10 ^ (1024 : Nat) :=
      pow_le_pow_left₀ (by norm_num) (by norm_num) _
    exact absurd (greatest.trans_le tens) (not_lt.mpr more)

theorem quotient_value (d : Scaled) :
    ((d.digits * 10 ^ d.power.toNat : Nat) : ℚ) / (10 ^ (-d.power).toNat : Nat) = d.value := by
  rw [Scaled.value, Binary.zpow_eq_div (by norm_num : (10 : ℚ) ≠ 0)]
  push_cast
  ring

/-- The bits of a finite float64 are found for each decimal that is near to it. -/
theorem Numeral.bitsOfScaled_near {bits s : Nat} {negative : Bool} {q : Int} {d : Scaled}
    (bound : bits < 18446744073709551616)
    (parts : Binary.read Binary.double bits = .finite negative s q) (s_pos : 0 < s)
    (near : Binary.double.Near s q d.value) :
    bitsOfScaled Binary.double negative d.digits d.power = bits := by
  obtain ⟨bits_eq, s_bound, lowest, normal, finite⟩ := @Binary.of_read Binary.double _ _ _ _ bound parts
  have value_pos := near.pos s_pos
  have digits_pos : 0 < d.digits := by
    rw [Nat.pos_iff_ne_zero]
    intro zero
    rw [Scaled.value, zero, Nat.cast_zero, zero_mul] at value_pos
    exact lt_irrefl _ value_pos
  have high : q ≤ 971 := by
    rw [Binary.lowest_double, Binary.infinity_double] at *
    simp only [Binary.double] at normal finite
    omega
  obtain ⟨least, greatest⟩ := within_reach digits_pos s_pos s_bound lowest high near
  have reach : ((Nat.pow 2 (Binary.double.exponent - 1) : Nat) : Int) + Binary.double.fraction =
    1076 := rfl
  rw [bitsOfScaled, reach, if_neg (not_or.mpr ⟨digits_pos.ne', not_lt.mpr least⟩),
    if_neg (not_lt.mpr greatest), Format.ofQuotient]
  simp only [Nat.pow_eq]
  rw [Binary.double.round_near (by positivity) s_pos s_bound lowest normal finite.le
    ((quotient_value d).symm ▸ near), ← bits_eq]

end TagWire.Decimal
