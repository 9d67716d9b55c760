import TagWire.Binary

/-!
# The shortest decimal of a floating-point number

A positive number is shown by the fewest digits that read back to it, and of those by the nearest. Two
candidates that are equally near are told apart by the rule of the output.

- `Decimal.readsBack`: whether a decimal lies among the reals that round to the number.
- `Decimal.shortest`: the digits, found on ever finer decimal grids.
-/

namespace TagWire.Decimal

/-- The number `digits · 10 ^ power`. -/
structure Scaled where
  digits : Nat
  power : Int
  deriving DecidableEq, Repr

/-- Which of two equally near candidates is shown. -/
inductive Tie where
  | even
  | up
  deriving DecidableEq, Repr

/-- Compares `digits · 10 ^ power` with `significand · 2 ^ exponent`. -/
def compareScaled (d : Scaled) (significand : Nat) (exponent : Int) : Ordering :=
  compare (d.digits * Nat.pow 10 d.power.toNat * Nat.pow 2 (-exponent).toNat)
    (significand * Nat.pow 2 exponent.toNat * Nat.pow 10 (-d.power).toNat)

/-- Whether a decimal rounds to `significand · 2 ^ exponent`. The interval reaches halfway to both
neighbours, of which the lower is nearer below a power of two, and holds its ends when the significand is
even. -/
def readsBack (f : Binary.Format) (significand : Nat) (exponent : Int) (d : Scaled) : Bool :=
  let nearBelow := significand = Nat.pow 2 f.fraction ∧ f.lowest < exponent
  let low := if nearBelow then 4 * significand - 1 else 4 * significand - 2
  let high := 4 * significand + 2
  let ends := significand % 2 = 0
  let atLow := compareScaled d low (exponent - 2)
  let atHigh := compareScaled d high (exponent - 2)
  (atLow = .gt ∨ ends ∧ atLow = .eq) ∧ (atHigh = .lt ∨ ends ∧ atHigh = .eq)

/-- The quotient `significand · 2 ^ exponent / 10 ^ power`. -/
def onGrid (significand : Nat) (exponent power : Int) : Nat × Nat :=
  (significand * Nat.pow 2 exponent.toNat * Nat.pow 10 (-power).toNat,
    Nat.pow 2 (-exponent).toNat * Nat.pow 10 power.toNat)

/-- The nearest decimal of a grid that reads back. -/
def nearestOn (f : Binary.Format) (tie : Tie) (significand : Nat) (exponent power : Int) : Option Scaled :=
  let (num, den) := onGrid significand exponent power
  let below : Scaled := ⟨num / den, power⟩
  let above : Scaled := ⟨num / den + 1, power⟩
  match readsBack f significand exponent below, readsBack f significand exponent above with
  | false, false => none
  | true, false => some below
  | false, true => some above
  | true, true =>
    match compare (2 * (num % den)) den with
    | .lt => some below
    | .gt => some above
    | .eq => some (if tie = .even ∧ below.digits % 2 = 0 then below else above)

/-- The least power of ten above a positive number. The binary magnitude gives it up to three steps. -/
def magnitude (significand : Nat) (exponent : Int) : Int :=
  let most := ((Nat.log2 significand : Int) + 1 + exponent) * 30103 / 100000 + 2
  let isAbove (power : Int) : Bool := compareScaled ⟨1, power⟩ significand exponent = .gt
  ([most - 3, most - 2, most - 1].find? isAbove).getD most

/-- Tries the grids in turn, each ten times finer than the one before. -/
def searchGrids (f : Binary.Format) (tie : Tie) (significand : Nat) (exponent : Int) :
    (grids : Nat) → (power : Int) → Option Scaled
  | 0, _ => none
  | grids + 1, power =>
    match nearestOn f tie significand exponent power with
    | some d => some d
    | none => searchGrids f tie significand exponent grids (power - 1)

/-- Moves trailing zeros of the digits into the power. -/
def stripZeros : (fuel : Nat) → Scaled → Scaled
  | 0, d => d
  | fuel + 1, d =>
    if d.digits ≠ 0 ∧ d.digits % 10 = 0 then stripZeros fuel ⟨d.digits / 10, d.power + 1⟩ else d

/-- The shortest decimal of the positive number `significand · 2 ^ exponent`. Seventeen digits always
suffice for the formats in use; the exact value stands in for any other. -/
def shortest (f : Binary.Format) (tie : Tie) (significand : Nat) (exponent : Int) : Scaled :=
  let found := searchGrids f tie significand exponent 17 (magnitude significand exponent - 1)
  let exact : Scaled :=
    if 0 ≤ exponent then ⟨significand * Nat.pow 2 exponent.toNat, 0⟩
    else ⟨significand * Nat.pow 5 (-exponent).toNat, exponent⟩
  stripZeros 400 (found.getD exact)

end TagWire.Decimal
