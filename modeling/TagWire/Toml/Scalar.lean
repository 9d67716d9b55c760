import TagWire.Hex

/-!
# Scalars of TOML

Whether a word is a truth value, a number, a date or a time. What it stands for is of no use to a reader
that looks for strings.
-/

namespace TagWire.Toml.Scalar

/-- Digits, perhaps with single underscores between them. -/
def isGrouped (isDigit : Char → Bool) : List Char → Bool
  | [] => false
  | [c] => isDigit c
  | c :: '_' :: rest => isDigit c && isGrouped isDigit rest
  | c :: rest => isDigit c && isGrouped isDigit rest

/-- The number that digits make. -/
def value (base : Nat) (digits : List Char) : Nat :=
  (digits.filterMap Hex.digit?).foldl (fun n d => base * n + d) 0

/-- The integers of 64 bits are less than this. -/
def bound : Nat := 0x8000000000000000

/-- Digits of a base that make an integer. -/
def isBased (base : Nat) (digits : List Char) : Bool :=
  isGrouped (fun c => (Hex.digit? c).any (· < base)) digits && value base digits < bound

/-- Decimal digits, with a zero in front only if that is all. -/
def isWhole (digits : List Char) : Bool :=
  isGrouped Char.isDigit digits && (digits = ['0'] || digits.head? ≠ some '0')

def isTruth (word : List Char) : Bool := word = "true".toList || word = "false".toList

def unsign : List Char → List Char
  | '+' :: rest | '-' :: rest => rest
  | word => word

def isInteger (word : List Char) : Bool :=
  match word with
  | '0' :: 'x' :: digits => isBased 16 digits
  | '0' :: 'o' :: digits => isBased 8 digits
  | '0' :: 'b' :: digits => isBased 2 digits
  | _ =>
    let digits := unsign word
    isWhole digits && value 10 digits < if word.head? = some '-' then bound + 1 else bound

/-- A number with a fraction or an exponent, or one that has no digits. -/
def isFloat (word : List Char) : Bool :=
  let word := unsign word
  let mantissa := word.takeWhile fun c => c ≠ 'e' && c ≠ 'E'
  let exponent := word.drop mantissa.length
  let whole := mantissa.takeWhile (· ≠ '.')
  let fraction := mantissa.drop whole.length
  word = "inf".toList || word = "nan".toList ||
    (isWhole whole && whole ≠ word &&
      (fraction = [] || isGrouped Char.isDigit (fraction.drop 1)) &&
      (exponent = [] || isGrouped Char.isDigit (unsign (exponent.drop 1))))

def daysIn (year month : Nat) : Nat :=
  if month = 2 then if year % 4 = 0 ∧ (year % 100 ≠ 0 ∨ year % 400 = 0) then 29 else 28
  else if month ∈ [4, 6, 9, 11] then 30
  else 31

def isDate : List Char → Bool
  | [a, b, c, d, '-', e, f, '-', g, h] =>
    let year := value 10 [a, b, c, d]
    let month := value 10 [e, f]
    let day := value 10 [g, h]
    [a, b, c, d, e, f, g, h].all Char.isDigit && 1 ≤ month && month ≤ 12 && 1 ≤ day &&
      day ≤ daysIn year month
  | _ => false

/-- A time of the day; a minute may have a leap second. -/
def isTime : List Char → Bool
  | a :: b :: ':' :: c :: d :: ':' :: e :: f :: fraction =>
    [a, b, c, d, e, f].all Char.isDigit && value 10 [a, b] < 24 && value 10 [c, d] < 60 &&
      value 10 [e, f] ≤ 60 &&
      match fraction with
      | [] => true
      | '.' :: digits => digits ≠ [] && digits.all Char.isDigit
      | _ => false
  | _ => false

/-- The distance of a time to that of Greenwich. -/
def isOffset : List Char → Bool
  | [] | ['Z'] | ['z'] => true
  | [sign, a, b, ':', c, d] =>
    sign ∈ ['+', '-'] && [a, b, c, d].all Char.isDigit && value 10 [a, b] < 24 && value 10 [c, d] < 60
  | _ => false

/-- A time, perhaps with an offset. -/
def isClock (word : List Char) : Bool :=
  let time := word.takeWhile (· ∉ ['Z', 'z', '+', '-'])
  isTime time && isOffset (word.drop time.length)

/-- A date with the time behind it in the same word. -/
def isMoment (word : List Char) : Bool :=
  isDate (word.take 10) &&
    match word.drop 10 with
    | 'T' :: clock | 't' :: clock => isClock clock
    | _ => false

/-- A character of a scalar. -/
def isPart (c : Char) : Bool := c.isAlphanum || c ∈ ['_', '+', '-', '.', ':']

/-- What follows a scalar. A blank may stand between a date and a time. -/
def skip? (text : List Char) : Option (List Char) :=
  let word := text.takeWhile isPart
  let rest := text.dropWhile isPart
  if isDate word then
    match rest with
    | ' ' :: more => if isClock (more.takeWhile isPart) then some (more.dropWhile isPart) else some rest
    | _ => some rest
  else if isTruth word || isInteger word || isFloat word || isTime word || isMoment word then some rest
  else none

end TagWire.Toml.Scalar
