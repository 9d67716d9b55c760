import TagWire.Json.Parse
import TagWire.Proofs.Decimal.Notation

/-!
# Leaves of JSON, written and read

Strings and integers are read as what they were written for.

- `Json.unescape_escape`: what stands between quotes.
- `Json.number_writeInt`: integers that fit 64 bits.
-/

namespace TagWire.Json

section
variable {rest chars : List Char}

theorem unescape_backslash {letter c : Char} (other : letter ≠ 'u')
    (stands : unescapeLetter? letter = some c) (further : unescape? rest = some chars) :
    unescape? ('\\' :: letter :: rest) = some (c :: chars) := by
  rw [unescape?, stands, further]
  · rfl
  · exact fun _ _ _ _ _ u _ => other u

/-- The digits of a control character give its code. -/
theorem unit_control : ∀ n < 0x20,
    unit? '0' '0' (Nat.digitChar (n / 16)) (Nat.digitChar (n % 16)) = some n := by
  decide

theorem unescape_control {c : Char} (control : c.toNat < 0x20)
    (further : unescape? rest = some chars) :
    unescape? ('\\' :: 'u' :: '0' :: '0' :: Nat.digitChar (c.toNat / 16) ::
      Nat.digitChar (c.toNat % 16) :: rest) = some (c :: chars) := by
  have no_low : isLowUnit c.toNat = false := by simp [isLowUnit]; omega
  have no_high : isHighUnit c.toNat = false := by simp [isHighUnit]; omega
  rw [unescape?.eq_def]
  change (do
    let n ← unit? '0' '0' (Nat.digitChar (c.toNat / 16)) (Nat.digitChar (c.toNat % 16))
    if isLowUnit n then none
    else if isHighUnit n then _
    else (unescape? rest).map (Char.ofNat n :: ·)) = _
  rw [unit_control _ control]
  change (if isLowUnit c.toNat = true then none else _) = _
  rw [if_neg (by simp [no_low]), if_neg (by simp [no_high]), further, Option.map_some,
    Char.ofNat_toNat]

/-- The letter behind a backslash stands for the character that it was written for. -/
theorem escapeLetter_some {c letter : Char} (escaped : escapeLetter? c = some letter) :
    letter ≠ 'u' ∧ unescapeLetter? letter = some c := by
  unfold escapeLetter? at escaped
  split_ifs at escaped with quote backslash backspace feed newline carriage tab <;>
    cases escaped <;> subst c <;> exact ⟨by decide, rfl⟩

theorem escapeLetter_none {c : Char} (plain : escapeLetter? c = none) : c ≠ '"' ∧ c ≠ '\\' := by
  constructor <;> rintro rfl <;> cases plain

/-- A character is read as itself, escaped or not. -/
theorem unescape_escapeChar (c : Char) (further : unescape? rest = some chars) :
    unescape? (escapeChar c ++ rest) = some (c :: chars) := by
  rw [escapeChar]
  cases letter : escapeLetter? c with
  | some letter =>
    obtain ⟨other, stands⟩ := escapeLetter_some ‹_›
    exact unescape_backslash other stands further
  | none =>
    have backslash := (escapeLetter_none letter).2
    dsimp only
    split_ifs with control
    · exact unescape_control control further
    · rw [List.singleton_append, unescape?, if_neg control, further]
      · rfl
      · exact fun _ _ _ _ _ plain _ => backslash plain
      · exact fun _ _ plain _ => backslash plain

/-- What is written between quotes is read as what it was written for. -/
theorem unescape_escape (chars : List Char) : unescape? (chars.flatMap escapeChar) = some chars := by
  induction chars with
  | nil => rfl
  | cons c chars ih =>
    rw [List.flatMap_cons]
    exact unescape_escapeChar c ih

end

open Decimal (digitChars signChars)

theorem writeInt_eq (i : Int) : writeInt i = signChars (decide (i < 0)) ++ digitChars i.natAbs := by
  unfold writeInt
  split_ifs with negative <;> simp [signChars, digitChars, negative]

/-- Digits that fit are gathered as the number that they spell. -/
theorem gatherWhole_fits {digits : List Char} {significand : Nat}
    (fits : Nat.ofDigitChars 10 digits significand < 0x10000000000000000) :
    gatherWhole significand digits = ⟨Nat.ofDigitChars 10 digits significand, 0⟩ := by
  induction digits generalizing significand with
  | nil => rfl
  | cons c digits ih =>
    have next : Nat.ofDigitChars 10 (c :: digits) significand =
        Nat.ofDigitChars 10 digits (10 * significand + digitValue c) := rfl
    rw [next] at fits ⊢
    have within : 10 * significand + digitValue c ≤
        Nat.ofDigitChars 10 digits (10 * significand + digitValue c) := by
      rw [Nat.ofDigitChars_eq_ofDigitChars_zero]
      exact Nat.le_add_right_of_le (Nat.le_mul_of_pos_left _ (Nat.pow_pos (by decide)))
    rw [gatherWhole, if_pos (by simp only [fitsWord, decide_eq_true_eq]; omega), ih fits]

/-- The digits of a number do not start with a zero, but for zero itself. -/
theorem head_digitChars {n : Nat} (n_pos : 0 < n) : (digitChars n).head? ≠ some '0' := by
  induction n using Nat.strongRecOn with
  | ind n ih =>
    rw [digitChars]
    rcases Nat.lt_or_ge n 10 with small | large
    · have digits : ∀ d < 10, 0 < d → [Nat.digitChar d].head? ≠ some '0' := by decide
      rw [Nat.toDigits_of_lt_base small]
      exact digits n small n_pos
    · rw [Nat.toDigits_of_base_le (by decide) large,
        List.head?_append_of_ne_nil _ Nat.toDigits_ne_nil]
      exact ih (n / 10) (by omega) (by omega)

theorem no_leading_zero (n : Nat) :
    ¬((digitChars n).head? = some '0' ∧ 1 < (digitChars n).length) := by
  rintro ⟨zero, long⟩
  rcases n.eq_zero_or_pos with rfl | n_pos
  · exact absurd long (by decide)
  · exact head_digitChars n_pos zero

/-- An integer that fits 64 bits is read as itself. -/
theorem number_writeInt {i : Int} (low : -0x8000000000000000 ≤ i) (high : i < 0x10000000000000000) :
    number? (writeInt i) = some (.int i) := by
  have numeral : Decimal.Numeral.ofChars? (writeInt i) =
      some ⟨decide (i < 0), digitChars i.natAbs, none, none⟩ := by
    rw [writeInt_eq]
    exact Decimal.Numeral.ofChars?_whole Nat.toDigits_ne_nil (Decimal.allDigits_digitChars _)
  have spelled : Nat.ofDigitChars 10 (digitChars i.natAbs) 0 = i.natAbs :=
    Decimal.natOfDigits_digitChars i.natAbs
  have gathered : gatherWhole 0 (digitChars i.natAbs) = ⟨i.natAbs, 0⟩ := by
    rw [gatherWhole_fits (by rw [spelled]; omega), spelled]
  rw [number?, numeral]
  change (do
    if (digitChars i.natAbs).head? = some '0' ∧ 1 < (digitChars i.natAbs).length then none
    ofWhole (decide (i < 0)) (gatherWhole 0 (digitChars i.natAbs))) = _
  rw [if_neg (no_leading_zero _), gathered]
  change ofWhole (decide (i < 0)) ⟨i.natAbs, 0⟩ = _
  rw [ofWhole, if_neg (by simp)]
  dsimp only
  rcases Int.lt_or_le i 0 with negative | positive
  · rw [if_pos (decide_eq_true negative), if_neg (by omega)]
    exact congrArg (some ∘ int) (by omega)
  · rw [if_neg (by simpa using positive)]
    exact congrArg (some ∘ int) (by omega)

end TagWire.Json
