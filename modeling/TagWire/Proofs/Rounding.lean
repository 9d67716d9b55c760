import Mathlib.Algebra.Order.Field.Power
import Mathlib.Data.Int.Log
import Mathlib.Data.Rat.Cast.Order
import Mathlib.Data.Rat.Floor
import Mathlib.Tactic.FieldSimp
import Mathlib.Tactic.Linarith
import Mathlib.Tactic.Positivity
import Mathlib.Tactic.Ring
import TagWire.Binary

/-!
# Rounding

A quotient that is nearer to a number of a format than to its neighbours is rounded to that number.

- `Binary.Format.Near`: the quotients around a number.
- `Binary.Format.round_near`: they are rounded to it.
- `Binary.Format.round_exact`: so is the number itself.
-/

namespace TagWire.Binary

section
variable {num den : Nat}

theorem below_iff (den_pos : 0 < den) (power : Int) :
    below num den power = true ↔ (num / den : ℚ) < 2 ^ power := by
  have den_pos' : (0 : ℚ) < den := by exact_mod_cast den_pos
  rw [below, decide_eq_true_iff, div_lt_iff₀ den_pos']
  simp only [Nat.pow_eq]
  cases power with
  | ofNat k =>
    simp only [Int.ofNat_eq_natCast, zpow_natCast, Int.toNat_natCast]
    have neg : (-(k : Int)).toNat = 0 := by omega
    rw [neg, pow_zero, Nat.mul_one, mul_comm]
    norm_cast
  | negSucc k =>
    have neg : (-Int.negSucc k).toNat = k + 1 := rfl
    have pos : (Int.negSucc k).toNat = 0 := rfl
    rw [neg, pos, pow_zero, Nat.mul_one, zpow_negSucc, inv_mul_eq_div, lt_div_iff₀ (by positivity)]
    norm_cast

/-- The guess is right, or one too high. -/
theorem guess_bounds (num_pos : 0 < num) (den_pos : 0 < den) :
    (2 : ℚ) ^ ((num.log2 : Int) - den.log2 - 1) ≤ num / den ∧
      (num / den : ℚ) < 2 ^ ((num.log2 : Int) - den.log2 + 1) := by
  have den_pos' : (0 : ℚ) < den := by exact_mod_cast den_pos
  have num_low : (2 : ℚ) ^ num.log2 ≤ num := by exact_mod_cast Nat.log2_self_le num_pos.ne'
  have num_high : (num : ℚ) < 2 ^ (num.log2 + 1) := by exact_mod_cast Nat.lt_log2_self
  have den_low : (2 : ℚ) ^ den.log2 ≤ den := by exact_mod_cast Nat.log2_self_le den_pos.ne'
  have den_high : (den : ℚ) < 2 ^ (den.log2 + 1) := by exact_mod_cast Nat.lt_log2_self
  constructor
  · rw [le_div_iff₀ den_pos']
    calc (2 : ℚ) ^ ((num.log2 : Int) - den.log2 - 1) * den
        ≤ 2 ^ ((num.log2 : Int) - den.log2 - 1) * 2 ^ (den.log2 + 1) :=
          mul_le_mul_of_nonneg_left den_high.le (by positivity)
      _ = 2 ^ num.log2 := by
          rw [← zpow_natCast, ← zpow_natCast, ← zpow_add₀ two_ne_zero]
          congr 1
          push_cast
          omega
      _ ≤ num := num_low
  · rw [div_lt_iff₀ den_pos']
    calc (num : ℚ) < 2 ^ (num.log2 + 1) := num_high
      _ = 2 ^ ((num.log2 : Int) - den.log2 + 1) * 2 ^ den.log2 := by
          rw [← zpow_natCast, ← zpow_natCast, ← zpow_add₀ two_ne_zero]
          congr 1
          push_cast
          omega
      _ ≤ 2 ^ ((num.log2 : Int) - den.log2 + 1) * den :=
          mul_le_mul_of_nonneg_left den_low (by positivity)

/-- The greatest power of two that is not above a quotient is told by its bounds. -/
theorem log2Quotient_eq (num_pos : 0 < num) (den_pos : 0 < den) {power : Int}
    (low : (2 : ℚ) ^ power ≤ num / den) (high : (num / den : ℚ) < 2 ^ (power + 1)) :
    log2Quotient num den = power := by
  obtain ⟨guess_low, guess_high⟩ := guess_bounds num_pos den_pos
  have upper : power < (num.log2 : Int) - den.log2 + 1 :=
    (zpow_lt_zpow_iff_right₀ one_lt_two).mp (low.trans_lt guess_high)
  have lower : (num.log2 : Int) - den.log2 - 1 < power + 1 :=
    (zpow_lt_zpow_iff_right₀ one_lt_two).mp (guess_low.trans_lt high)
  have less : below num den ((num.log2 : Int) - den.log2) = true ↔ _ :=
    below_iff den_pos ((num.log2 : Int) - den.log2)
  unfold log2Quotient
  dsimp only
  by_cases guess : (num.log2 : Int) - den.log2 = power
  · rw [guess] at less ⊢
    rw [if_neg (by rw [less]; exact not_lt.mpr low)]
  · have next : (num.log2 : Int) - den.log2 = power + 1 := by omega
    rw [next] at less ⊢
    rw [if_pos (less.mpr high)]
    omega

/-- The greatest power of two that is not above a quotient. -/
theorem log2Quotient_log (num_pos : 0 < num) (den_pos : 0 < den) :
    log2Quotient num den = Int.log 2 (num / den : ℚ) := by
  have positive : (0 : ℚ) < num / den := by positivity
  apply log2Quotient_eq num_pos den_pos
  · exact_mod_cast Int.zpow_log_le_self one_lt_two positive
  · exact_mod_cast Int.lt_zpow_succ_log_self one_lt_two (num / den : ℚ)

end

section
variable {x : ℚ}

/-- The logarithm tells the powers of two below the steps of `2 ^ q` in a number. -/
theorem le_log_iff (positive : 0 < x) (n : Nat) (q : Int) :
    (n : Int) + q ≤ Int.log 2 x ↔ (2 : ℚ) ^ n ≤ x / 2 ^ q := by
  have step_pos : (0 : ℚ) < 2 ^ q := by positivity
  rw [← Int.zpow_le_iff_le_log one_lt_two positive, Nat.cast_ofNat, zpow_add₀ two_ne_zero,
    zpow_natCast, le_div_iff₀ step_pos]

theorem log_lt_iff (positive : 0 < x) (n : Nat) (q : Int) :
    Int.log 2 x < (n : Int) + q ↔ x / 2 ^ q < (2 : ℚ) ^ n := by
  rw [← not_le, le_log_iff positive, not_le]

end

theorem zpow_eq_div {b : ℚ} (nonzero : b ≠ 0) (power : Int) :
    b ^ power = b ^ power.toNat / b ^ (-power).toNat := by
  rw [eq_div_iff (pow_ne_zero _ nonzero), ← zpow_natCast, ← zpow_natCast, ← zpow_add₀ nonzero]
  congr 1
  omega

/-- A quotient within half of the divisor around a multiple is rounded to it; the ends are taken in if
the multiple is even. -/
theorem divRound_near {num den s : Nat} (den_pos : 0 < den)
    (low : 2 * (s * den) < 2 * num + den ∨ s % 2 = 0 ∧ 2 * (s * den) = 2 * num + den)
    (high : 2 * num < 2 * (s * den) + den ∨ s % 2 = 0 ∧ 2 * num = 2 * (s * den) + den) :
    divRound num den = s := by
  have split := Nat.div_add_mod num den
  have rest := Nat.mod_lt num den_pos
  unfold divRound
  dsimp only
  generalize num / den = k at *
  generalize num % den = r at *
  rw [Nat.mul_comm] at split
  have above : s ≤ k + 1 := by
    by_contra beyond
    have := Nat.mul_le_mul_right den (show k + 2 ≤ s by omega)
    rw [Nat.add_mul] at this
    omega
  have below : k ≤ s := by
    by_contra beyond
    have := Nat.mul_le_mul_right den (show s + 1 ≤ k by omega)
    rw [Nat.add_mul] at this
    omega
  obtain rfl | rfl : s = k ∨ s = k + 1 := by omega
  · have even : 2 * r < den ∨ s % 2 = 0 ∧ 2 * r = den := by omega
    rcases even with less | ⟨even, tie⟩
    · rw [if_pos less]
    · rw [if_neg (by omega), if_neg (by omega), even, Nat.add_zero]
  · rw [Nat.add_mul, Nat.one_mul] at low high
    have even : den < 2 * r ∨ (k + 1) % 2 = 0 ∧ 2 * r = den := by omega
    rcases even with more | ⟨even, tie⟩
    · rw [if_neg (by omega), if_pos more]
    · rw [if_neg (by omega), if_neg (by omega)]
      omega

/-- How far down from `s · 2 ^ q` quotients are rounded to it, in steps of `2 ^ q`: the neighbour is
nearer below the least number with its exponent. -/
def Format.margin (f : Format) (s : Nat) (q : Int) : ℚ :=
  if s = 2 ^ f.fraction ∧ f.lowest < q then 1 / 4 else 1 / 2

/-- A quotient that is no nearer to a neighbour of `s · 2 ^ q`. It may be as near if `s` is even. -/
structure Format.Near (f : Format) (s : Nat) (q : Int) (x : ℚ) : Prop where
  low : (s - f.margin s q) * 2 ^ q < x ∨ s % 2 = 0 ∧ (s - f.margin s q) * 2 ^ q = x
  high : x < (s + 1 / 2) * 2 ^ q ∨ s % 2 = 0 ∧ x = (s + 1 / 2) * 2 ^ q

/-- The same of the quotient that is left to be rounded to a natural. -/
theorem divRound_quotient {num den s : Nat} (den_pos : 0 < den)
    (low : (s : ℚ) - 1 / 2 < num / den ∨ s % 2 = 0 ∧ (s : ℚ) - 1 / 2 = num / den)
    (high : (num / den : ℚ) < s + 1 / 2 ∨ s % 2 = 0 ∧ (num / den : ℚ) = s + 1 / 2) :
    divRound num den = s := by
  have den_pos' : (0 : ℚ) < den := by exact_mod_cast den_pos
  rw [lt_div_iff₀ den_pos', eq_div_iff den_pos'.ne'] at low
  rw [div_lt_iff₀ den_pos', div_eq_iff den_pos'.ne'] at high
  apply divRound_near den_pos
  · rcases low with less | ⟨even, tie⟩
    · left
      have : (2 : ℚ) * (s * den) < 2 * num + den := by linarith
      exact_mod_cast this
    · refine .inr ⟨even, ?_⟩
      have : (2 : ℚ) * (s * den) = 2 * num + den := by linarith
      exact_mod_cast this
  · rcases high with less | ⟨even, tie⟩
    · left
      have : (2 : ℚ) * num < 2 * (s * den) + den := by linarith
      exact_mod_cast this
    · refine .inr ⟨even, ?_⟩
      have : (2 : ℚ) * num = 2 * (s * den) + den := by linarith
      exact_mod_cast this

/-- What a quotient is rounded to, by its greatest power of two and its significand. -/
theorem Format.round_eq (f : Format) {num den s : Nat} {q : Int} (num_pos : 0 < num)
    (den_pos : 0 < den) (power : max f.lowest (log2Quotient num den - f.fraction) = q)
    (low : (s : ℚ) - 1 / 2 < num / den / 2 ^ q ∨ s % 2 = 0 ∧ (s : ℚ) - 1 / 2 = num / den / 2 ^ q)
    (high : (num / den / 2 ^ q : ℚ) < s + 1 / 2 ∨ s % 2 = 0 ∧ (num / den / 2 ^ q : ℚ) = s + 1 / 2) :
    f.round num den = min f.infinity ((q - f.lowest).toNat * 2 ^ f.fraction + s) := by
  have scaled : (num / den / 2 ^ q : ℚ) =
      (num * 2 ^ (-q).toNat : Nat) / (den * 2 ^ q.toNat : Nat) := by
    rw [zpow_eq_div two_ne_zero]
    push_cast
    field_simp
  rw [scaled] at low high
  have divided : divRound (num * 2 ^ (-q).toNat) (den * 2 ^ q.toNat) = s :=
    divRound_quotient (by positivity) low high
  rw [Format.round, if_neg num_pos.ne']
  dsimp only
  simp only [Nat.pow_eq]
  rw [power, divided]

theorem Format.margin_le (f : Format) (s : Nat) (q : Int) : f.margin s q ≤ 1 / 2 := by
  unfold margin
  split <;> norm_num

/-- A number is near to itself. -/
theorem Format.near_self (f : Format) (s : Nat) (q : Int) : f.Near s q (s * 2 ^ q) := by
  have step_pos : (0 : ℚ) < 2 ^ q := by positivity
  have margin_pos : 0 < f.margin s q := by
    unfold margin
    split <;> norm_num
  exact ⟨.inl (mul_lt_mul_of_pos_right (by linarith) step_pos),
    .inl (mul_lt_mul_of_pos_right (by linarith) step_pos)⟩

namespace Format.Near

variable {f : Format} {s : Nat} {q : Int} {x : ℚ}

theorem at_least (near : f.Near s q x) : (s - f.margin s q) * 2 ^ q ≤ x := by
  rcases near.low with less | ⟨-, tie⟩
  · exact less.le
  · exact tie.le

theorem at_most (near : f.Near s q x) : x ≤ (s + 1 / 2) * 2 ^ q := by
  rcases near.high with less | ⟨-, tie⟩
  · exact less.le
  · exact tie.le

/-- What is near to a positive number is positive. -/
theorem pos (near : f.Near s q x) (s_pos : 0 < s) : 0 < x := by
  have s_cast : (1 : ℚ) ≤ s := by exact_mod_cast s_pos
  have margin := f.margin_le s q
  have low_pos : 0 < (s - f.margin s q) * 2 ^ q := mul_pos (by linarith) (by positivity)
  exact low_pos.trans_le near.at_least

/-- In steps of `2 ^ q`. -/
theorem steps (near : f.Near s q x) :
    ((s : ℚ) - f.margin s q < x / 2 ^ q ∨ s % 2 = 0 ∧ (s : ℚ) - f.margin s q = x / 2 ^ q) ∧
      (x / 2 ^ q < s + 1 / 2 ∨ s % 2 = 0 ∧ x / 2 ^ q = s + 1 / 2) := by
  have step_pos : (0 : ℚ) < 2 ^ q := by positivity
  rw [lt_div_iff₀ step_pos, eq_div_iff step_pos.ne', div_lt_iff₀ step_pos, div_eq_iff step_pos.ne']
  exact ⟨near.low, near.high⟩

end Format.Near

section
variable {f : Format} {num den s : Nat} {q : Int}

/-- A quotient that has the exponent of the number. -/
theorem Format.round_within (num_pos : 0 < num) (den_pos : 0 < den) (lowest : f.lowest ≤ q)
    (own : (2 : ℚ) ^ f.fraction ≤ num / den / 2 ^ q ∨ q = f.lowest)
    (under : (num / den / 2 ^ q : ℚ) < 2 ^ (f.fraction + 1)) (near : f.Near s q (num / den)) :
    f.round num den = min f.infinity ((q - f.lowest).toNat * 2 ^ f.fraction + s) := by
  obtain ⟨low, high⟩ := near.steps
  have positive : (0 : ℚ) < num / den := by positivity
  have log_lt := (log_lt_iff positive _ q).mpr under
  have power : max f.lowest (log2Quotient num den - f.fraction) = q := by
    rw [log2Quotient_log num_pos den_pos]
    rcases own with above | least
    · have log_le := (le_log_iff positive _ q).mpr above
      omega
    · omega
  refine f.round_eq num_pos den_pos power ?_ high
  have margin := f.margin_le s q
  rcases low with less | ⟨even, tie⟩
  · exact .inl (by linarith)
  · rcases margin.lt_or_eq with closer | half
    · exact .inl (by linarith)
    · exact .inr ⟨even, by rw [← half, tie]⟩

/-- A quotient just below the least number with an exponent is a number of half the steps. -/
theorem Format.round_below (num_pos : 0 < num) (den_pos : 0 < den) (higher : f.lowest < q)
    (below : (num / den / 2 ^ q : ℚ) < 2 ^ f.fraction)
    (near : f.Near (2 ^ f.fraction) q (num / den)) :
    f.round num den = min f.infinity ((q - f.lowest).toNat * 2 ^ f.fraction + 2 ^ f.fraction) := by
  have step_pos : (0 : ℚ) < 2 ^ q := by positivity
  have positive : (0 : ℚ) < num / den := by positivity
  have quarter : f.margin (2 ^ f.fraction) q = 1 / 4 := if_pos ⟨rfl, higher⟩
  have at_least := (le_div_iff₀ step_pos).mpr near.at_least
  rw [quarter, Nat.cast_pow, Nat.cast_ofNat] at at_least
  have half : (num / den / 2 ^ (q - 1) : ℚ) = 2 * (num / den / 2 ^ q) := by
    rw [zpow_sub_one₀ two_ne_zero]
    field_simp
  have next : ((2 ^ (f.fraction + 1) : Nat) : ℚ) = 2 * 2 ^ f.fraction := by
    push_cast
    ring
  have power : max f.lowest (log2Quotient num den - f.fraction) = q - 1 := by
    have some_steps : (1 : ℚ) ≤ 2 ^ f.fraction := one_le_pow₀ one_le_two
    have log_lt := (log_lt_iff positive _ q).mpr below
    have log_le := (le_log_iff positive f.fraction (q - 1)).mpr (by linarith)
    rw [log2Quotient_log num_pos den_pos]
    omega
  have even : 2 ^ (f.fraction + 1) % 2 = 0 := by omega
  have low : ((2 ^ (f.fraction + 1) : Nat) : ℚ) - 1 / 2 ≤ num / den / 2 ^ (q - 1) := by linarith
  have high : (num / den / 2 ^ (q - 1) : ℚ) < (2 ^ (f.fraction + 1) : Nat) + 1 / 2 := by linarith
  rw [f.round_eq num_pos den_pos power (low.lt_or_eq.imp_right fun tie => ⟨even, tie⟩) (.inl high)]
  have before : (q - f.lowest).toNat = (q - 1 - f.lowest).toNat + 1 := by omega
  rw [before]
  congr 1
  ring

/-- A quotient that is near to a number of the format is rounded to it. -/
theorem Format.round_near (f : Format) (den_pos : 0 < den)
    (s_pos : 0 < s) (bound : s < 2 ^ (f.fraction + 1)) (lowest : f.lowest ≤ q)
    (normal : 2 ^ f.fraction ≤ s ∨ q = f.lowest)
    (fits : (q - f.lowest).toNat * 2 ^ f.fraction + s ≤ f.infinity)
    (near : f.Near s q (num / den)) :
    f.round num den = (q - f.lowest).toNat * 2 ^ f.fraction + s := by
  obtain ⟨-, high⟩ := near.steps
  have bound_cast : (s : ℚ) + 1 ≤ 2 ^ (f.fraction + 1) := by exact_mod_cast bound
  have under : (num / den / 2 ^ q : ℚ) < 2 ^ (f.fraction + 1) := by
    rcases high with less | ⟨-, tie⟩ <;> linarith
  have num_pos : 0 < num := by
    rw [Nat.pos_iff_ne_zero]
    rintro rfl
    simpa using near.pos s_pos
  rw [← min_eq_right fits]
  by_cases own : (2 : ℚ) ^ f.fraction ≤ num / den / 2 ^ q ∨ q = f.lowest
  · exact Format.round_within num_pos den_pos lowest own under near
  · -- the number is the least with its exponent, and the quotient is just below
    obtain ⟨below, higher⟩ := not_or.mp own
    rw [not_le] at below
    have least : s = 2 ^ f.fraction := by
      have s_le : 2 ^ f.fraction ≤ s := normal.resolve_right higher
      have at_least := (le_div_iff₀ (show (0 : ℚ) < 2 ^ q by positivity)).mpr near.at_least
      have margin := f.margin_le s q
      have s_lt : (s : ℚ) < 2 ^ f.fraction + 1 := by linarith
      have : s < 2 ^ f.fraction + 1 := by exact_mod_cast s_lt
      omega
    subst least
    exact Format.round_below num_pos den_pos (by omega) below near

end

/-- A number that the format has, with its significand and its power of two, is rounded
to itself. -/
theorem Format.round_exact (f : Format) {num den m : Nat} {q : Int} (den_pos : 0 < den)
    (m_pos : 0 < m) (value : num * 2 ^ (-q).toNat = m * (den * 2 ^ q.toNat))
    (bound : m < 2 ^ (f.fraction + 1)) (low : f.lowest ≤ q)
    (normal : 2 ^ f.fraction ≤ m ∨ q = f.lowest)
    (fits : (q - f.lowest).toNat * 2 ^ f.fraction + m ≤ f.infinity) :
    f.round num den = (q - f.lowest).toNat * 2 ^ f.fraction + m := by
  have den_pos' : (0 : ℚ) < den := by exact_mod_cast den_pos
  have quotient : (num / den : ℚ) = m * 2 ^ q := by
    rw [zpow_eq_div two_ne_zero, div_eq_iff den_pos'.ne']
    field_simp
    have cast : (num : ℚ) * 2 ^ (-q).toNat = m * (den * 2 ^ q.toNat) := by exact_mod_cast value
    rw [cast]
    ring
  exact f.round_near den_pos m_pos bound low normal fits (quotient ▸ f.near_self m q)

theorem Format.round_le (f : Format) (num den : Nat) : f.round num den ≤ f.infinity := by
  rw [Format.round]
  split
  · exact Nat.zero_le _
  · exact min_le_left _ _

end TagWire.Binary
