import TagWire.Decimal.Shortest

/-!
# How decimals are written

The digits of a number are laid out positionally or with an exponent. A `Style` holds the decisions of
one output format.
-/

namespace TagWire.Decimal

/-- The decisions of an output format. -/
structure Style where
  /-- Which of two equally near candidates is shown. -/
  tie : Tie
  /-- The least decimal exponent of the first digit that is written positionally. -/
  positionalFrom : Int
  /-- The first decimal exponent that is too large for positional writing. -/
  positionalUntil : Int
  /-- What stands before an exponent that is not negative. -/
  plus : List Char
  nan : String
  infinity : String
  deriving DecidableEq, Repr

def digitChars (n : Nat) : List Char := Nat.toDigits 10 n

def zeros (n : Nat) : List Char := List.replicate n '0'

/-- Digits with a point somewhere: a number that has no fraction ends in `.0`. -/
def positional (d : Scaled) : List Char :=
  let digits := digitChars d.digits
  if 0 ≤ d.power then digits ++ zeros d.power.toNat ++ ['.', '0']
  else
    let places := (-d.power).toNat
    if places < digits.length then
      digits.take (digits.length - places) ++ ['.'] ++ digits.drop (digits.length - places)
    else ['0', '.'] ++ zeros (places - digits.length) ++ digits

/-- One digit, the others behind a point, and the exponent of the first digit. -/
def exponential (plus : List Char) (d : Scaled) : List Char :=
  let digits := digitChars d.digits
  let exponent := d.power + (digits.length - 1 : Nat)
  let fraction := digits.drop 1
  digits.take 1 ++ (if fraction.isEmpty then [] else '.' :: fraction) ++ ['e'] ++
    (if exponent < 0 then ['-'] else plus) ++ digitChars exponent.natAbs

/-- The text of a floating-point number. -/
def Style.write (style : Style) (f : Binary.Format) (bits : Nat) : List Char :=
  let sign (negative : Bool) : List Char := if negative then ['-'] else []
  match Binary.read f bits with
  | .nan => style.nan.toList
  | .infinite negative => sign negative ++ style.infinity.toList
  | .finite negative significand exponent =>
    sign negative ++
      if significand = 0 then ['0', '.', '0']
      else
        let d := shortest f style.tie significand exponent
        let first := d.power + ((digitChars d.digits).length - 1 : Nat)
        if style.positionalFrom ≤ first ∧ first < style.positionalUntil then positional d
        else exponential style.plus d

end TagWire.Decimal
