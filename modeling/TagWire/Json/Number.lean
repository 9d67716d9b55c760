import TagWire.Decimal.Numeral
import TagWire.Json.Basic

/-!
# JSON numbers, read

A number without fraction and exponent is an integer if it fits 64 bits; minus zero and everything else is
a float64. The digits are gathered in a word of 64 bits: those that no longer fit only count for the
magnitude. The word is then rounded, scaled by a rounded power of ten, and rounded again.
-/

namespace TagWire.Json

/-- Digits that fit 64 bits, and the power of ten behind them. -/
structure Digits where
  significand : Nat
  power : Int
  deriving DecidableEq, Repr

def digitValue (c : Char) : Nat := c.toNat - 48

def fitsWord (n : Nat) : Bool := n < 0x10000000000000000

/-- Gathers the digits before the point; from the first that does not fit on, each raises the power. -/
def gatherWhole : (significand : Nat) → List Char → Digits
  | significand, [] => ⟨significand, 0⟩
  | significand, c :: rest =>
    let next := 10 * significand + digitValue c
    if fitsWord next then gatherWhole next rest else ⟨significand, (c :: rest).length⟩

/-- Gathers the digits behind the point; from the first that does not fit on, all are dropped. -/
def gatherFraction : Digits → List Char → Digits
  | d, [] => d
  | d, c :: rest =>
    let next := 10 * d.significand + digitValue c
    if fitsWord next then gatherFraction ⟨next, d.power - 1⟩ rest else d

/-- The bits nearest to the product of two finite magnitudes. -/
def mulMagnitudes (a b : Nat) : Nat :=
  match Binary.read Binary.double a, Binary.read Binary.double b with
  | .finite _ s p, .finite _ s' p' => Binary.double.ofScaled false (s * s') (p + p')
  | _, _ => Binary.double.infinity

/-- The bits nearest to the quotient of two finite magnitudes, the second not zero. -/
def divMagnitudes (a b : Nat) : Nat :=
  match Binary.read Binary.double a, Binary.read Binary.double b with
  | .finite _ s p, .finite _ s' p' =>
    let power := p - p'
    Binary.double.ofQuotient false (s * Nat.pow 2 power.toNat) (s' * Nat.pow 2 (-power).toNat)
  | _, _ => Binary.double.infinity

/-- The bits nearest to a power of ten. -/
def powerOfTen (n : Nat) : Nat := Binary.double.round (Nat.pow 10 n) 1

/-- Scales a rounded significand down by `n` powers of ten, at most 308 at a time. -/
def scaleDown : (steps : Nat) → (bits n : Nat) → Nat
  | 0, bits, _ => bits
  | steps + 1, bits, n =>
    if n ≤ 308 then divMagnitudes bits (powerOfTen n)
    else if bits = 0 then 0
    else scaleDown steps (divMagnitudes bits (powerOfTen 308)) (n - 308)

/-- The bits of gathered digits, none where they are out of reach. -/
def Digits.magnitude? (d : Digits) : Option Nat :=
  let bits := Binary.double.round d.significand 1
  if d.power < 0 then some (scaleDown 4 bits (-d.power).toNat)
  else if 308 < d.power then if bits = 0 then some 0 else none
  else
    let scaled := mulMagnitudes bits (powerOfTen d.power.toNat)
    if scaled = Binary.double.infinity then none else some scaled

/-- The limit of exponents: one beyond it is refused, or makes zero. -/
def exponentLimit : Nat := 0x7fffffff

def clampExponent (i : Int) : Int := max (-0x80000000) (min 0x7fffffff i)

/-- The digits raised by an exponent, none where that is out of reach. -/
def Digits.raise? (d : Digits) (e : Int) : Option Digits :=
  if exponentLimit < e.natAbs then
    if d.significand ≠ 0 ∧ 0 ≤ e then none else some ⟨0, 0⟩
  else some ⟨d.significand, clampExponent (d.power + e)⟩

def ofMagnitude (negative : Bool) (bits : Nat) : Json :=
  double (UInt64.ofNat (Binary.double.sign negative + bits))

/-- Digits as a number: an integer must not be minus zero and must fit 64 bits. -/
def ofWhole (negative : Bool) (d : Digits) : Option Json :=
  if d.power ≠ 0 then d.magnitude?.map (ofMagnitude negative)
  else if negative then
    if d.significand = 0 ∨ 0x8000000000000000 < d.significand then
      some (ofMagnitude true (Binary.double.round d.significand 1))
    else some (int (-d.significand))
  else some (int d.significand)

/-- The number that a run of characters spells. -/
def number? (run : List Char) : Option Json := do
  let numeral ← Decimal.Numeral.ofChars? run
  if numeral.whole.head? = some '0' ∧ 1 < numeral.whole.length then none
  let whole := gatherWhole 0 numeral.whole
  match numeral.fraction, numeral.exponent with
  | none, none => ofWhole numeral.negative whole
  | some [], _ => none
  | fraction, exponent =>
    let digits := gatherFraction whole (fraction.getD [])
    let raised ← digits.raise? (exponent.getD 0)
    raised.magnitude?.map (ofMagnitude numeral.negative)

end TagWire.Json
