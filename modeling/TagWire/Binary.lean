/-!
# Binary floating-point numbers

A number is kept as its bits, as a message carries it. A format gives the widths of the two fields below
the sign bit. Everything is computed on naturals.

- `Binary.read`: what bits stand for.
- `Format.round`: the bits nearest to a quotient, a tie to the even neighbour.
- `Binary.narrow`, `Binary.widen`: from eight bytes to four and back.
-/

namespace TagWire.Binary

/-- The widths of the fraction and exponent fields. -/
structure Format where
  fraction : Nat
  exponent : Nat
  deriving DecidableEq, Repr

/-- The format of four bytes. -/
def single : Format := ⟨23, 8⟩

/-- The format of eight bytes. -/
def double : Format := ⟨52, 11⟩

namespace Format

/-- The power of two that the lowest fraction bit of the least numbers counts. -/
def lowest (f : Format) : Int := 2 - (Nat.pow 2 (f.exponent - 1) : Int) - f.fraction

/-- The bits of infinity. -/
def infinity (f : Format) : Nat := (Nat.pow 2 f.exponent - 1) * Nat.pow 2 f.fraction

/-- The sign bit. -/
def sign (f : Format) (negative : Bool) : Nat :=
  if negative then Nat.pow 2 (f.fraction + f.exponent) else 0

end Format

/-- What the bits of a floating-point number stand for. -/
inductive Number where
  | nan
  | infinite (negative : Bool)
  /-- The number `significand · 2 ^ power`. -/
  | finite (negative : Bool) (significand : Nat) (power : Int)
  deriving DecidableEq, Repr

/-- Whether the sign bit is set. -/
def isNegative (f : Format) (bits : Nat) : Bool :=
  bits / Nat.pow 2 (f.fraction + f.exponent) % 2 = 1

/-- What bits stand for. -/
def read (f : Format) (bits : Nat) : Number :=
  let low := bits % Nat.pow 2 f.fraction
  let field := bits / Nat.pow 2 f.fraction % Nat.pow 2 f.exponent
  let negative := isNegative f bits
  if field = Nat.pow 2 f.exponent - 1 then
    if low = 0 then .infinite negative else .nan
  else if field = 0 then .finite negative low f.lowest
  else .finite negative (Nat.pow 2 f.fraction + low) (f.lowest + (field - 1))

/-- The quotient rounded to the nearest natural, a tie to the even one. -/
def divRound (num den : Nat) : Nat :=
  let down := num / den
  let twice := 2 * (num % den)
  if twice < den then down
  else if den < twice then down + 1
  else down + down % 2

/-- Whether `num / den` is less than `2 ^ power`. -/
def below (num den : Nat) (power : Int) : Bool :=
  num * Nat.pow 2 (-power).toNat < den * Nat.pow 2 power.toNat

/-- The greatest power of two that is not above a positive quotient. -/
def log2Quotient (num den : Nat) : Int :=
  let guess : Int := (Nat.log2 num : Int) - (Nat.log2 den : Int)
  if below num den guess then guess - 1 else guess

/-- The bits of the magnitude nearest to `num / den`, a tie to the even neighbour; what is out of reach
is infinite. -/
def Format.round (f : Format) (num den : Nat) : Nat :=
  if num = 0 then 0
  else
    let power := max f.lowest (log2Quotient num den - f.fraction)
    let significand := divRound (num * Nat.pow 2 (-power).toNat) (den * Nat.pow 2 power.toNat)
    min f.infinity ((power - f.lowest).toNat * Nat.pow 2 f.fraction + significand)

/-- The bits nearest to a signed quotient. -/
def Format.ofQuotient (f : Format) (negative : Bool) (num den : Nat) : Nat :=
  f.sign negative + f.round num den

/-- The bits nearest to an integer. -/
def Format.ofInt (f : Format) (i : Int) : Nat :=
  f.ofQuotient (i < 0) i.natAbs 1

/-- The bits nearest to `significand · 2 ^ power`. -/
def Format.ofScaled (f : Format) (negative : Bool) (significand : Nat) (power : Int) : Nat :=
  f.ofQuotient negative (significand * Nat.pow 2 power.toNat) (Nat.pow 2 (-power).toNat)

/-- Carries bits into another format. A NaN keeps its sign and the high bits of its fraction, and becomes
quiet. -/
def convert (source target : Format) (bits : Nat) : Nat :=
  match read source bits with
  | .finite negative significand power => target.ofScaled negative significand power
  | .infinite negative => target.sign negative + target.infinity
  | .nan =>
    let quiet := Nat.pow 2 (target.fraction - 1)
    let payload := bits % Nat.pow 2 source.fraction * Nat.pow 2 target.fraction / Nat.pow 2 source.fraction
    target.sign (isNegative source bits) + target.infinity + quiet + payload % quiet

/-- Eight bytes to four. -/
def narrow (bits : UInt64) : UInt32 :=
  UInt32.ofNat (convert double single bits.toNat)

/-- Four bytes to eight. -/
def widen (bits : UInt32) : UInt64 :=
  UInt64.ofNat (convert single double bits.toNat)

/-- Whether the numbers are equal: a NaN equals nothing, and the zeros equal each other. -/
def Number.equal : Number → Number → Bool
  | .infinite n, .infinite n' => n = n'
  | .finite _ 0 _, .finite _ 0 _ => true
  | .finite n s p, .finite n' s' p' => n = n' ∧ s = s' ∧ p = p'
  | _, _ => false

end TagWire.Binary
