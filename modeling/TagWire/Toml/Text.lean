import TagWire.Hex

/-!
# Strings of TOML

Strings come in four forms: on one line or over several, with escapes or as they stand.
-/

namespace TagWire.Toml.Text

def isBlank (c : Char) : Bool := c = ' ' || c = '\t'

/-- Control characters, of which strings and comments may hold a tab only. -/
def isControl (c : Char) : Bool := (c.toNat < 0x20 && c ≠ '\t') || c.toNat = 0x7f

def isBare (c : Char) : Bool := c.isAlphanum || c = '_' || c = '-'

/-- The character that a letter stands for behind a backslash. -/
def unescape? (c : Char) : Option Char :=
  if c = '"' ∨ c = '\\' then some c
  else if c = 'b' then some '\x08'
  else if c = 'f' then some '\x0c'
  else if c = 'n' then some '\n'
  else if c = 'r' then some '\r'
  else if c = 't' then some '\t'
  else none

/-- Puts a character in front of a text that was read. -/
def cons (c : Char) (read : Option (List Char × List Char)) : Option (List Char × List Char) :=
  read.map fun (text, rest) => (c :: text, rest)

/-- A string in double quotes up to its end, and what follows. -/
def basic : List Char → Option (List Char × List Char)
  | '"' :: rest => some ([], rest)
  | '\\' :: 'u' :: a :: b :: c :: d :: rest => do
    let c ← Hex.char? [a, b, c, d]
    cons c (basic rest)
  | '\\' :: 'U' :: a :: b :: c :: d :: e :: f :: g :: h :: rest => do
    let c ← Hex.char? [a, b, c, d, e, f, g, h]
    cons c (basic rest)
  | '\\' :: c :: rest => do
    let c ← unescape? c
    cons c (basic rest)
  | c :: rest => if isControl c then none else cons c (basic rest)
  | [] => none

/-- A string in single quotes up to its end, and what follows. -/
def literal : List Char → Option (List Char × List Char)
  | '\'' :: rest => some ([], rest)
  | c :: rest => if isControl c then none else cons c (literal rest)
  | [] => none

/-- Where a reader of a long string stands. -/
inductive Margin where
  | inText
  /-- Behind a backslash that ends its line. -/
  | lineOver
  /-- In the blanks at the beginning of the lines behind it. -/
  | indented
  deriving DecidableEq, Repr

/-- Whether only blanks follow up to the end of the line. -/
def endsLine (text : List Char) : Bool :=
  match text.dropWhile isBlank with
  | '\n' :: _ => true
  | '\r' :: '\n' :: _ => true
  | _ => false

/-- A string in three double quotes up to its end, and what follows. Up to two quotes may stand right
before the closing ones. -/
def longBasic : Margin → List Char → Option (List Char × List Char)
  | .lineOver, '\n' :: rest => longBasic .indented rest
  | .lineOver, _ :: rest => longBasic .lineOver rest
  | .indented, ' ' :: rest => longBasic .indented rest
  | .indented, '\t' :: rest => longBasic .indented rest
  | .indented, '\n' :: rest => longBasic .indented rest
  | .indented, '\r' :: '\n' :: rest => longBasic .indented rest
  | _, '"' :: '"' :: '"' :: '"' :: '"' :: rest => some (['"', '"'], rest)
  | _, '"' :: '"' :: '"' :: '"' :: rest => some (['"'], rest)
  | _, '"' :: '"' :: '"' :: rest => some ([], rest)
  | _, '\\' :: 'u' :: a :: b :: c :: d :: rest => do
    let c ← Hex.char? [a, b, c, d]
    cons c (longBasic .inText rest)
  | _, '\\' :: 'U' :: a :: b :: c :: d :: e :: f :: g :: h :: rest => do
    let c ← Hex.char? [a, b, c, d, e, f, g, h]
    cons c (longBasic .inText rest)
  | _, '\\' :: c :: rest =>
    if endsLine (c :: rest) then
      if c = '\n' then longBasic .indented rest else longBasic .lineOver rest
    else do
      let c ← unescape? c
      cons c (longBasic .inText rest)
  | _, '\r' :: '\n' :: rest => cons '\n' (longBasic .inText rest)
  | _, '\n' :: rest => cons '\n' (longBasic .inText rest)
  | _, c :: rest => if isControl c then none else cons c (longBasic .inText rest)
  | _, [] => none

/-- A string in three single quotes up to its end, and what follows. -/
def longLiteral : List Char → Option (List Char × List Char)
  | '\'' :: '\'' :: '\'' :: '\'' :: '\'' :: rest => some (['\'', '\''], rest)
  | '\'' :: '\'' :: '\'' :: '\'' :: rest => some (['\''], rest)
  | '\'' :: '\'' :: '\'' :: rest => some ([], rest)
  | '\r' :: '\n' :: rest => cons '\n' (longLiteral rest)
  | '\n' :: rest => cons '\n' (longLiteral rest)
  | c :: rest => if isControl c then none else cons c (longLiteral rest)
  | [] => none

/-- Drops the line end that may follow the opening quotes of a long string. -/
def dropLineEnd : List Char → List Char
  | '\n' :: rest => rest
  | '\r' :: '\n' :: rest => rest
  | text => text

/-- A string on one line, which may also be a key. -/
def single? : List Char → Option (List Char × List Char)
  | '"' :: rest => basic rest
  | '\'' :: rest => literal rest
  | _ => none

/-- A string in any form. -/
def any? : List Char → Option (List Char × List Char)
  | '"' :: '"' :: '"' :: rest => longBasic .inText (dropLineEnd rest)
  | '\'' :: '\'' :: '\'' :: rest => longLiteral (dropLineEnd rest)
  | text => single? text

end TagWire.Toml.Text
