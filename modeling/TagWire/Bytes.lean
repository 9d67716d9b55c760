/-!
# Bytes

Byte strings and the little-endian numbers written in them.

- `Bytes.ofNat`, `Bytes.toNat`: unsigned numbers of a given width.
- `Bytes.ofInt`, `Bytes.toInt`: two's complement numbers of a given width.
-/

namespace TagWire

abbrev Bytes := List UInt8

namespace Bytes

/-- The `width` lowest bytes of `n`, lowest first. -/
def ofNat : (width n : Nat) → Bytes
  | 0, _ => []
  | width + 1, n => UInt8.ofNat n :: ofNat width (n / 256)

/-- The number whose bytes are given lowest first. -/
def toNat : Bytes → Nat
  | [] => 0
  | b :: rest => b.toNat + 256 * toNat rest

/-- How many byte strings of a width there are. -/
def card (width : Nat) : Nat := Nat.pow 256 width

/-- The `width` lowest bytes of the two's complement form of `i`. -/
def ofInt (width : Nat) (i : Int) : Bytes :=
  ofNat width (i % (card width : Int)).toNat

/-- The two's complement number that the bytes hold. -/
def toInt (bytes : Bytes) : Int :=
  Int.bmod (toNat bytes) (card bytes.length)

@[simp] theorem length_ofNat (width n : Nat) : (ofNat width n).length = width := by
  induction width generalizing n with
  | zero => rfl
  | succ width ih => simp [ofNat, ih]

@[simp] theorem length_ofInt (width : Nat) (i : Int) : (ofInt width i).length = width :=
  length_ofNat ..

@[simp] theorem card_zero : card 0 = 1 := rfl

theorem card_succ (width : Nat) : card (width + 1) = 256 * card width :=
  Nat.mul_comm ..

theorem toNat_ofNat (width n : Nat) : toNat (ofNat width n) = n % card width := by
  induction width generalizing n with
  | zero => simp [ofNat, toNat, Nat.mod_one]
  | succ width ih => simp only [ofNat, toNat, ih, UInt8.toNat_ofNat', card_succ, Nat.mod_mul]

theorem toNat_lt (bytes : Bytes) : toNat bytes < card bytes.length := by
  induction bytes with
  | nil => decide
  | cons b rest ih =>
    have low : b.toNat < 256 := b.toNat_lt
    simp only [toNat, List.length_cons, card_succ]
    omega

theorem ofNat_toNat (bytes : Bytes) : ofNat bytes.length (toNat bytes) = bytes := by
  induction bytes with
  | nil => rfl
  | cons b rest ih =>
    have low : b.toNat < 256 := b.toNat_lt
    have rest_eq : (b.toNat + 256 * toNat rest) / 256 = toNat rest := by omega
    have head_eq : UInt8.ofNat (b.toNat + 256 * toNat rest) = b := by
      apply UInt8.toNat_inj.mp
      simp only [UInt8.toNat_ofNat']
      omega
    simp only [List.length_cons, ofNat, toNat, rest_eq, head_eq, ih]

theorem card_pos (width : Nat) : 0 < card width :=
  Nat.pow_pos (by decide)

theorem toInt_ofInt (width : Nat) (i : Int) : toInt (ofInt width i) = i.bmod (card width) := by
  have nonneg : 0 ≤ i % (card width : Int) :=
    Int.emod_nonneg i (Int.natCast_ne_zero.mpr (Nat.ne_of_gt (card_pos width)))
  rw [toInt, length_ofInt, ofInt, toNat_ofNat, Int.natCast_emod, Int.toNat_of_nonneg nonneg, Int.emod_emod_of_dvd _ (Int.dvd_refl _),
    Int.emod_bmod]

theorem ofInt_toInt (bytes : Bytes) : ofInt bytes.length (toInt bytes) = bytes := by
  have back : toInt bytes % (card bytes.length : Int) = (toNat bytes : Int) := by
    rw [toInt, Int.bmod_emod, ← Int.natCast_emod, Nat.mod_eq_of_lt (toNat_lt bytes)]
  rw [ofInt, back, Int.toNat_natCast, ofNat_toNat]

end Bytes

end TagWire
