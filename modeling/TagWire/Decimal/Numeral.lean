import TagWire.Binary

/-!
# Numerals

A numeral is an optional minus sign, digits, optionally a point with more digits, and optionally an
exponent. It denotes an integer if it has neither point nor exponent, and a floating-point number
otherwise.
-/

namespace TagWire.Decimal

/-- The parts of a numeral. -/
structure Numeral where
  negative : Bool
  whole : List Char
  fraction : Option (List Char)
  exponent : Option Int
  deriving DecidableEq, Repr

/-- The natural that digits spell. -/
def natOfDigits (digits : List Char) : Nat :=
  Nat.ofDigitChars 10 digits 0

/-- Splits the leading digits off. -/
def splitDigits (cs : List Char) : List Char × List Char :=
  (cs.takeWhile Char.isDigit, cs.dropWhile Char.isDigit)

/-- An exponent that reaches to the end of the text. -/
def exponent? : List Char → Option Int
  | e :: rest =>
    if e = 'e' ∨ e = 'E' then
      let (negative, digits) :=
        match rest with
        | '-' :: digits => (true, digits)
        | '+' :: digits => (false, digits)
        | digits => (false, digits)
      if digits ≠ [] ∧ digits.all Char.isDigit then
        let n : Int := natOfDigits digits
        some (if negative then -n else n)
      else none
    else none
  | [] => none

namespace Numeral

/-- Reads a text that is a numeral from end to end. -/
def ofChars? (text : List Char) : Option Numeral :=
  let (negative, body) :=
    match text with
    | '-' :: body => (true, body)
    | body => (false, body)
  let (whole, rest) := splitDigits body
  if whole = [] then none
  else
    match rest with
    | [] => some ⟨negative, whole, none, none⟩
    | '.' :: rest =>
      let (fraction, rest) := splitDigits rest
      if rest = [] then some ⟨negative, whole, some fraction, none⟩
      else (exponent? rest).map fun e => ⟨negative, whole, some fraction, some e⟩
    | rest => (exponent? rest).map fun e => ⟨negative, whole, none, some e⟩

/-- The integer that a numeral without point and exponent denotes. -/
def int? (n : Numeral) : Option Int :=
  match n.fraction, n.exponent with
  | none, none =>
    let i : Int := natOfDigits n.whole
    some (if n.negative then -i else i)
  | _, _ => none

/-- The bits nearest to `digits · 10 ^ power`. Beyond the reach of the format the power of the leading
digit alone decides. -/
def bitsOfScaled (f : Binary.Format) (negative : Bool) (digits : Nat) (power : Int) : Nat :=
  let reach : Int := (Nat.pow 2 (f.exponent - 1) : Int) + f.fraction
  let top := power + (Nat.toDigits 10 digits).length
  if digits = 0 ∨ top < -reach then f.sign negative
  else if reach < top then f.sign negative + f.infinity
  else f.ofQuotient negative (digits * Nat.pow 10 power.toNat) (Nat.pow 10 (-power).toNat)

/-- The bits nearest to the number that a numeral denotes. -/
def bits (f : Binary.Format) (n : Numeral) : Nat :=
  let fraction := n.fraction.getD []
  bitsOfScaled f n.negative (natOfDigits (n.whole ++ fraction)) (n.exponent.getD 0 - fraction.length)

end Numeral

end TagWire.Decimal
