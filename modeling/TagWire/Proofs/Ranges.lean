import TagWire.Bytes

/-!
# Ranges that are checked

A part of a byte string and a difference of two numbers mean something however short the string and
however great the second number is. Here they are checked first, and give nothing where they are out of
bounds.

- `minus?`, `Bytes.slice?`, `Bytes.splitAt?`: differences, parts and both sides of a place.
- `Bytes.signExtend?`: the integer of up to eight bytes, by moving them up and back.
-/

namespace TagWire

/-- A difference, none where it would be negative. -/
def minus? (n m : Nat) : Option Nat := if m ≤ n then some (n - m) else none

theorem minus?_le {n m : Nat} (within : m ≤ n) : minus? n m = some (n - m) := if_pos within

namespace Bytes

/-- The bytes of a range, none where it does not lie inside. -/
def slice? (bytes : Bytes) (start stop : Nat) : Option Bytes :=
  if start ≤ stop ∧ stop ≤ bytes.length then some ((bytes.drop start).take (stop - start)) else none

/-- The bytes in front of a place and behind it, none where the place is not inside. -/
def splitAt? (bytes : Bytes) (n : Nat) : Option (Bytes × Bytes) :=
  if n ≤ bytes.length then some (bytes.take n, bytes.drop n) else none

variable {bytes : Bytes}

theorem slice?_eq_some {start stop : Nat} {part : Bytes} :
    bytes.slice? start stop = some part ↔
      start ≤ stop ∧ stop ≤ bytes.length ∧ (bytes.drop start).take (stop - start) = part := by
  rw [slice?, Option.ite_none_right_eq_some, Option.some.injEq, and_assoc]

theorem slice?_front {n : Nat} (within : n ≤ bytes.length) : bytes.slice? 0 n = some (bytes.take n) :=
  if_pos ⟨Nat.zero_le n, within⟩

theorem slice?_add {start n : Nat} (within : start + n ≤ bytes.length) :
    bytes.slice? start (start + n) = some ((bytes.drop start).take n) := by
  rw [slice?, if_pos ⟨Nat.le_add_right _ _, within⟩, Nat.add_sub_cancel_left]

theorem slice?_append (before within behind : Bytes) :
    slice? (before ++ within ++ behind) before.length (before.length + within.length) =
      some within := by
  rw [slice?_add (by simp), List.append_assoc, List.drop_left, List.take_left]

theorem splitAt?_le {n : Nat} (within : n ≤ bytes.length) :
    bytes.splitAt? n = some (bytes.take n, bytes.drop n) := if_pos within

/-- A part of at most `n` bytes. -/
theorem splitAt?_min (bytes : Bytes) (n : Nat) :
    bytes.splitAt? (min n bytes.length) = some (bytes.take n, bytes.drop n) := by
  rw [splitAt?_le (Nat.min_le_right _ _)]
  rcases Nat.le_total n bytes.length with short | long
  · rw [Nat.min_eq_left short]
  · rw [Nat.min_eq_right long, List.take_length, List.drop_length, List.take_of_length_le long,
      List.drop_of_length_le long]

theorem ofNat_mod (width n : Nat) : ofNat width (n % card width) = ofNat width n := by
  have back := ofNat_toNat (ofNat width n)
  rwa [length_ofNat, toNat_ofNat] at back

theorem take_ofNat {width wider : Nat} (within : width ≤ wider) (n : Nat) :
    (ofNat wider n).take width = ofNat width n := by
  induction wider generalizing width n with
  | zero => rw [Nat.le_zero.mp within]; rfl
  | succ wider ih =>
    cases width with
    | zero => rfl
    | succ width =>
      rw [ofNat, ofNat, List.take_succ_cons, ih (Nat.le_of_succ_le_succ within)]

/-- The lowest bytes of an integer do not depend on how many there are. -/
theorem take_ofInt {width wider : Nat} (within : width ≤ wider) (i : Int) :
    (ofInt wider i).take width = ofInt width i := by
  have divides : (card width : Int) ∣ card wider :=
    Int.natCast_dvd_natCast.mpr (Nat.pow_dvd_pow 256 within)
  have positive : (card wider : Int) ≠ 0 := Int.natCast_ne_zero.mpr (Nat.ne_of_gt (card_pos wider))
  rw [ofInt, take_ofNat within, ← ofNat_mod, ofInt]
  congr 1
  have low := Int.emod_nonneg i positive
  rw [← Int.emod_emod_of_dvd i divides, Int.toNat_emod low (Int.natCast_nonneg _), Int.toNat_natCast]

theorem bmod_scaled (i : Int) {m k : Nat} (positive : 0 < m) (scale : 0 < k) :
    (i * k).bmod (m * k) = i.bmod m * k := by
  have split : i * k = i.bmod m * k + i.bdiv m * (m * k : Nat) := by
    rw [Int.bmod_eq_self_sub_bdiv_mul, Int.sub_mul, Int.natCast_mul, Int.mul_assoc]
    omega
  have least := Int.le_bmod (x := i) positive
  have most := Int.bmod_lt (x := i) positive
  have low : -(m : Int) ≤ i.bmod m * 2 := by omega
  have high : i.bmod m * 2 < m := by omega
  have unit : (0 : Int) < k := Int.natCast_pos.mpr scale
  rw [split, Int.add_mul_bmod_self_right]
  apply Int.bmod_eq_of_le_mul_two
  · rw [Int.natCast_mul, Int.mul_right_comm, ← Int.neg_mul]
    exact Int.mul_le_mul_of_nonneg_right low (Int.le_of_lt unit)
  · rw [Int.natCast_mul, Int.mul_right_comm]
    exact Int.mul_lt_mul_of_pos_right high unit

/-- Up to eight bytes, moved to the top of a number of eight bytes and back. -/
def signExtend? (bytes : Bytes) : Option Int := do
  let kept ← bytes.slice? 0 (min bytes.length 8)
  let shift ← minus? 64 (8 * kept.length)
  return ((toNat kept : Int) * Nat.pow 2 shift).bmod (card 8) / Nat.pow 2 shift

theorem signExtend?_eq {bytes : Bytes} (short : bytes.length ≤ 8) :
    bytes.signExtend? = some bytes.toInt := by
  have size : card bytes.length * Nat.pow 2 (64 - 8 * bytes.length) = card 8 := by
    rw [card, card, Nat.pow_eq, Nat.pow_eq, Nat.pow_eq, show 256 = 2 ^ 8 from rfl, ← Nat.pow_mul,
      ← Nat.pow_mul, ← Nat.pow_add]
    congr 1
    omega
  have scale : 0 < Nat.pow 2 (64 - 8 * bytes.length) := Nat.two_pow_pos _
  have back : ((bytes.toNat : Int) * Nat.pow 2 (64 - 8 * bytes.length)).bmod (card 8) /
      Nat.pow 2 (64 - 8 * bytes.length) = bytes.toInt := by
    rw [← size, bmod_scaled _ (card_pos _) scale,
      Int.mul_ediv_cancel _ (Int.natCast_ne_zero.mpr (Nat.ne_of_gt scale)), toInt]
  rw [signExtend?, Nat.min_eq_left short, slice?_front (Nat.le_refl _), List.take_length]
  dsimp only [Option.bind_eq_bind, Option.bind_some]
  rw [minus?_le (by omega)]
  exact congrArg some back

end Bytes

end TagWire
