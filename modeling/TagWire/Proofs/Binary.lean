import TagWire.Proofs.Rounding

/-!
# Rounding what needs no rounding

Every float32 is a float64, so that widening it loses nothing.

- `Binary.of_read`: the bits of a finite number.
- `Binary.narrow_widen`: four bytes to eight and back.
-/

namespace TagWire.Binary

theorem isNegative_single (bits : Nat) :
    isNegative single bits = decide (bits / 2147483648 % 2 = 1) := rfl

theorem isNegative_double (bits : Nat) :
    isNegative double bits = decide (bits / 9223372036854775808 % 2 = 1) := rfl

theorem lowest_single : single.lowest = -149 := rfl

theorem lowest_double : double.lowest = -1074 := rfl

theorem infinity_single : single.infinity = 2139095040 := rfl

theorem infinity_double : double.infinity = 9218868437227405312 := rfl

theorem sign_single (negative : Bool) :
    single.sign negative = if negative then 2147483648 else 0 := rfl

theorem sign_double (negative : Bool) :
    double.sign negative = if negative then 9223372036854775808 else 0 := rfl

theorem read_single (bits : Nat) :
    read single bits =
      if bits / 8388608 % 256 = 255 then
        if bits % 8388608 = 0 then .infinite (isNegative single bits) else .nan
      else if bits / 8388608 % 256 = 0 then .finite (isNegative single bits) (bits % 8388608) (-149)
      else .finite (isNegative single bits) (8388608 + bits % 8388608)
        (-149 + ((bits / 8388608 % 256 : Nat) - 1)) := rfl

theorem read_double (bits : Nat) :
    read double bits =
      if bits / 4503599627370496 % 2048 = 2047 then
        if bits % 4503599627370496 = 0 then .infinite (isNegative double bits) else .nan
      else if bits / 4503599627370496 % 2048 = 0 then .finite (isNegative double bits)
        (bits % 4503599627370496) (-1074)
      else .finite (isNegative double bits) (4503599627370496 + bits % 4503599627370496)
        (-1074 + ((bits / 4503599627370496 % 2048 : Nat) - 1)) := rfl

/-- Bits are a sign, an exponent field and a fraction. -/
theorem fields_eq (f : Format) {bits : Nat} (bound : bits < 2 * 2 ^ (f.fraction + f.exponent)) :
    bits = f.sign (isNegative f bits) +
      (bits / 2 ^ f.fraction % 2 ^ f.exponent * 2 ^ f.fraction + bits % 2 ^ f.fraction) := by
  have high : bits / 2 ^ f.fraction / 2 ^ f.exponent = bits / 2 ^ (f.fraction + f.exponent) := by
    rw [Nat.div_div_eq_div_mul, Nat.pow_add]
  have sign : f.sign (isNegative f bits) =
      2 ^ f.fraction * (2 ^ f.exponent * (bits / 2 ^ f.fraction / 2 ^ f.exponent)) := by
    have top : bits / 2 ^ (f.fraction + f.exponent) < 2 :=
      Nat.div_lt_of_lt_mul (by rwa [Nat.mul_comm])
    rw [high, Format.sign, isNegative]
    simp only [Nat.pow_eq, decide_eq_true_eq, ← Nat.mul_assoc, ← Nat.pow_add]
    rcases Nat.le_one_iff_eq_zero_or_eq_one.mp (Nat.lt_succ_iff.mp top) with zero | one
    · simp [zero]
    · simp [one]
  calc bits = 2 ^ f.fraction * (bits / 2 ^ f.fraction) + bits % 2 ^ f.fraction :=
        (Nat.div_add_mod bits (2 ^ f.fraction)).symm
    _ = 2 ^ f.fraction * (2 ^ f.exponent * (bits / 2 ^ f.fraction / 2 ^ f.exponent) +
          bits / 2 ^ f.fraction % 2 ^ f.exponent) + bits % 2 ^ f.fraction := by
        rw [Nat.div_add_mod (bits / 2 ^ f.fraction)]
    _ = _ := by
        rw [sign]
        ring

/-- The bits of a finite number, from its significand and its power of two. -/
theorem of_read {f : Format} {bits s : Nat} {negative : Bool} {power : Int}
    (bound : bits < 2 * 2 ^ (f.fraction + f.exponent))
    (h : read f bits = .finite negative s power) :
    bits = f.sign negative + ((power - f.lowest).toNat * 2 ^ f.fraction + s) ∧
      s < 2 ^ (f.fraction + 1) ∧ f.lowest ≤ power ∧ (2 ^ f.fraction ≤ s ∨ power = f.lowest) ∧
      (power - f.lowest).toNat * 2 ^ f.fraction + s < f.infinity := by
  have whole := fields_eq f bound
  have low_bound : bits % 2 ^ f.fraction < 2 ^ f.fraction := Nat.mod_lt _ (Nat.two_pow_pos _)
  have field_bound : bits / 2 ^ f.fraction % 2 ^ f.exponent < 2 ^ f.exponent :=
    Nat.mod_lt _ (Nat.two_pow_pos _)
  have double_step : 2 ^ (f.fraction + 1) = 2 ^ f.fraction + 2 ^ f.fraction := by
    rw [Nat.pow_succ, Nat.mul_two]
  rw [read] at h
  simp only [Nat.pow_eq] at h
  generalize bits / 2 ^ f.fraction % 2 ^ f.exponent = field at *
  generalize bits % 2 ^ f.fraction = low at *
  have finite (below : field < 2 ^ f.exponent - 1) : field * 2 ^ f.fraction + low < f.infinity := by
    calc field * 2 ^ f.fraction + low < (field + 1) * 2 ^ f.fraction := by
          rw [Nat.succ_mul]
          omega
      _ ≤ (2 ^ f.exponent - 1) * 2 ^ f.fraction := Nat.mul_le_mul_right _ below
  split at h
  · split at h <;> cases h
  · rename_i not_top
    have finite := finite (by omega)
    split at h
    · rename_i least
      cases h
      rw [least, Nat.zero_mul, Nat.zero_add] at whole finite
      rw [sub_self, Int.toNat_zero, Nat.zero_mul, Nat.zero_add]
      exact ⟨whole, by omega, le_rfl, .inr rfl, finite⟩
    · cases h
      have raised : (f.lowest + ((field : Int) - 1) - f.lowest).toNat * 2 ^ f.fraction +
          (2 ^ f.fraction + low) = field * 2 ^ f.fraction + low := by
        have before : (f.lowest + ((field : Int) - 1) - f.lowest).toNat + 1 = field := by omega
        rw [← Nat.add_assoc, ← Nat.succ_mul, Nat.succ_eq_add_one, before]
      rw [raised]
      exact ⟨whole, by omega, by omega, .inl (Nat.le_add_right _ _), finite⟩

/-- The bits of a finite float32. -/
theorem of_read_single {bits s : Nat} {negative : Bool} {power : Int} (bound : bits < 4294967296)
    (h : read single bits = .finite negative s power) :
    bits = single.sign negative + ((power + 149).toNat * 8388608 + s) ∧ s < 16777216 ∧
      -149 ≤ power ∧ power ≤ 104 ∧
      (8388608 ≤ s ∨ power = -149) := by
  obtain ⟨bits_eq, s_bound, low, normal, finite⟩ := @of_read single _ _ _ _ bound h
  rw [lowest_single] at bits_eq low normal finite
  rw [infinity_single] at finite
  simp only [single, sub_neg_eq_add] at bits_eq s_bound normal finite
  refine ⟨bits_eq, s_bound, low, ?_, normal⟩
  omega

/-- A finite float64 that is no least number, from its significand and its power of two. -/
theorem read_double_normal {m e : Nat} (negative : Bool) (low : 4503599627370496 ≤ m)
    (bound : m < 9007199254740992) (small : e < 2046) :
    read double (double.sign negative + (e * 4503599627370496 + m)) =
      .finite negative m (-1074 + e) := by
  have field : (double.sign negative + (e * 4503599627370496 + m)) / 4503599627370496 % 2048 =
      e + 1 := by
    rw [sign_double]
    split <;> omega
  have fraction : (double.sign negative + (e * 4503599627370496 + m)) % 4503599627370496 =
      m - 4503599627370496 := by
    rw [sign_double]
    split <;> omega
  have sign : isNegative double (double.sign negative + (e * 4503599627370496 + m)) = negative := by
    rw [isNegative_double, sign_double]
    cases negative
    · simp only [Bool.false_eq_true, ↓reduceIte, decide_eq_false_iff_not]
      omega
    · simp only [↓reduceIte, decide_eq_true_eq]
      omega
  have significand : 4503599627370496 + (m - 4503599627370496) = m := by omega
  have power : (-1074 : Int) + ((e + 1 : Nat) - 1) = -1074 + e := by omega
  rw [read_double, field, fraction, sign, if_neg (by omega), if_neg (by omega), significand, power]

/-- Widening shifts the significand up to the first bit of the wider fraction. -/
theorem ofScaled_double {s k : Nat} {power : Int} (low : 4503599627370496 ≤ s * 2 ^ k)
    (bound : s * 2 ^ k < 9007199254740992) (k_le : k ≤ 52) (power_low : -149 ≤ power)
    (power_high : power ≤ 104) (negative : Bool) :
    double.ofScaled negative s power =
      double.sign negative + ((power - k + 1074).toNat * 4503599627370496 + s * 2 ^ k) := by
  have s_pos : 0 < s * 2 ^ k := by omega
  have value : s * 2 ^ power.toNat * 2 ^ (-(power - k)).toNat =
      s * 2 ^ k * (2 ^ (-power).toNat * 2 ^ (power - k).toNat) := by
    rw [Nat.mul_assoc, Nat.mul_assoc, ← Nat.pow_add, ← Nat.pow_add, ← Nat.pow_add]
    congr 2
    omega
  have lowest : double.lowest ≤ power - k := by
    rw [lowest_double]
    omega
  have fits :
      (power - k - double.lowest).toNat * 4503599627370496 + s * 2 ^ k ≤ double.infinity := by
    rw [lowest_double, infinity_double]
    omega
  have rounded := double.round_exact (Nat.two_pow_pos _) s_pos value bound lowest (.inl low) fits
  rw [lowest_double] at rounded
  rw [Format.ofScaled, Format.ofQuotient]
  simp only [Nat.pow_eq]
  rw [rounded]
  simp only [double, sub_neg_eq_add]
  rfl

/-- Narrowing shifts the significand of a float32 back. -/
theorem ofScaled_single {s k : Nat} {power : Int} (s_pos : 0 < s) (bound : s < 16777216)
    (power_low : -149 ≤ power) (power_high : power ≤ 104) (normal : 8388608 ≤ s ∨ power = -149)
    (negative : Bool) :
    single.ofScaled negative (s * 2 ^ k) (power - k) =
      single.sign negative + ((power + 149).toNat * 8388608 + s) := by
  have value : s * 2 ^ k * 2 ^ (power - k).toNat * 2 ^ (-power).toNat =
      s * (2 ^ (-(power - k)).toNat * 2 ^ power.toNat) := by
    rw [Nat.mul_assoc, Nat.mul_assoc, ← Nat.pow_add, ← Nat.pow_add, ← Nat.pow_add]
    congr 2
    omega
  have fits : (power - single.lowest).toNat * 8388608 + s ≤ single.infinity := by
    rw [lowest_single, infinity_single]
    omega
  have rounded := single.round_exact (Nat.two_pow_pos _) s_pos value bound power_low normal fits
  rw [lowest_single] at rounded
  rw [Format.ofScaled, Format.ofQuotient]
  simp only [Nat.pow_eq]
  rw [rounded]
  simp only [single, sub_neg_eq_add]
  rfl

/-- The shift that takes the significand of a float32 to the first bit of the fraction of
a float64. -/
theorem exists_shift {s : Nat} (s_pos : 0 < s) (bound : s < 16777216) :
    ∃ k, k ≤ 52 ∧ 4503599627370496 ≤ s * 2 ^ k ∧ s * 2 ^ k < 9007199254740992 := by
  have log_le : s.log2 ≤ 23 := by
    have : s.log2 < 24 := (Nat.log2_lt s_pos.ne').mpr bound
    omega
  have low : 2 ^ s.log2 ≤ s := Nat.log2_self_le s_pos.ne'
  have high : s < 2 ^ (s.log2 + 1) := Nat.lt_log2_self
  refine ⟨52 - s.log2, by omega, ?_, ?_⟩
  · calc 4503599627370496 = 2 ^ s.log2 * 2 ^ (52 - s.log2) := by
          rw [← Nat.pow_add, Nat.add_sub_cancel' (by omega)]
      _ ≤ s * 2 ^ (52 - s.log2) := Nat.mul_le_mul_right _ low
  · calc s * 2 ^ (52 - s.log2) < 2 ^ (s.log2 + 1) * 2 ^ (52 - s.log2) :=
          Nat.mul_lt_mul_of_pos_right high (Nat.two_pow_pos _)
      _ = 9007199254740992 := by
          rw [← Nat.pow_add]
          have : s.log2 + 1 + (52 - s.log2) = 53 := by omega
          rw [this]

theorem of_read_single_infinite {bits : Nat} {negative : Bool} (bound : bits < 4294967296)
    (h : read single bits = .infinite negative) :
    bits = single.sign negative + single.infinity := by
  rw [read_single] at h
  split at h
  · split at h
    · cases h
      rw [isNegative_single, sign_single, infinity_single]
      simp only [decide_eq_true_eq]
      split <;> omega
    · cases h
  · split at h <;> cases h

/-- A float32 that is a number comes back from a float64 as it was. -/
theorem convert_convert {bits : Nat} (bound : bits < 4294967296)
    (number : read single bits ≠ .nan) :
    convert double single (convert single double bits) = bits := by
  cases parts : read single bits with
  | nan => exact absurd parts number
  | infinite negative =>
    rw [of_read_single_infinite bound parts]
    cases negative <;> rfl
  | finite negative s power =>
    obtain ⟨bits_eq, s_bound, power_low, power_high, normal⟩ := of_read_single bound parts
    have widened : convert single double bits = double.ofScaled negative s power := by
      rw [convert, parts]
    rcases Nat.eq_zero_or_pos s with rfl | s_pos
    · obtain rfl : power = -149 := by omega
      rw [widened, bits_eq]
      cases negative <;> rfl
    · obtain ⟨k, k_le, low, high⟩ := exists_shift s_pos s_bound
      have exponent : (-1074 : Int) + (power - k + 1074).toNat = power - k := by omega
      rw [widened, ofScaled_double low high k_le power_low power_high, convert,
        read_double_normal negative low high (by omega), exponent, bits_eq]
      exact ofScaled_single s_pos s_bound power_low power_high normal negative

theorem widen_lt {bits : Nat} (number : read single bits ≠ .nan) :
    convert single double bits < 18446744073709551616 := by
  have sign_le (negative : Bool) : double.sign negative ≤ 9223372036854775808 := by
    cases negative <;> decide
  rw [convert]
  cases parts : read single bits with
  | nan => exact absurd parts number
  | infinite negative =>
    have := sign_le negative
    dsimp only
    rw [infinity_double]
    omega
  | finite negative s power =>
    have := sign_le negative
    have rounded := double.round_le (s * Nat.pow 2 power.toNat) (Nat.pow 2 (-power).toNat)
    rw [infinity_double] at rounded
    dsimp only
    rw [Format.ofScaled, Format.ofQuotient]
    omega

/-- Widening loses nothing of a float32 that is a number. -/
theorem narrow_widen {bits : UInt32} (number : read single bits.toNat ≠ .nan) :
    narrow (widen bits) = bits := by
  rw [narrow, widen, UInt64.toNat_ofNat_of_lt' (widen_lt number),
    convert_convert bits.toNat_lt number, UInt32.ofNat_toNat]

end TagWire.Binary
