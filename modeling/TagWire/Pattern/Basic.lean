/-!
# Patterns

Regular expressions, as far as it takes to say whether an engine can search for them.

- `Pattern`: a regular expression, with its nesting.
- `Pattern.depth`: how deep it is nested.
- `Pattern.isSearchable`: whether the engine can search for it. The engine knows no classes of Unicode.
-/

namespace TagWire

namespace Pattern

/-- The text of a list of flags. A minus sign divides those that are set from those that are cleared. -/
abbrev Flags := List Char

/-- What flags do to one of them, if anything. -/
def Flags.setting? (flags : Flags) (flag : Char) : Option Bool :=
  if flag ∈ flags then some (flag ∈ flags.takeWhile (· ≠ '-')) else none

structure Literal where
  char : Char
  /-- Whether it is written as a byte, with two hexadecimal digits. -/
  isByte : Bool
  deriving DecidableEq, Repr

/-- Whether a literal is beyond ASCII. -/
def Literal.isWide (l : Literal) : Bool := 0x80 ≤ l.char.toNat

inductive Leaf where
  | nothing
  | literal (l : Literal)
  /-- The characters of a class from one to another. -/
  | range (first last : Literal)
  /-- A class with a name, such as `[:digit:]`. -/
  | named (negated : Bool)
  /-- A class with a letter, such as `\d`. -/
  | shorthand (negated : Bool)
  | anyChar
  /-- An end of a line or of the text. -/
  | edge
  /-- An end of a word. -/
  | wordEdge
  deriving DecidableEq, Repr

inductive Branch where
  | group (flags : Flags)
  | repetition
  | sequence
  | choice
  /-- A class in brackets. -/
  | bracket (negated : Bool)
  /-- The items of a class. -/
  | union
  /-- An operation on two classes. -/
  | operation
  deriving DecidableEq, Repr

end Pattern

inductive Pattern where
  | leaf (l : Pattern.Leaf)
  /-- Flags that are in force up to the end of the group. -/
  | flags (f : Pattern.Flags)
  | branch (kind : Pattern.Branch) (parts : List Pattern)
  deriving Repr, Inhabited

namespace Pattern

/-- Parts in their order. One part stands for itself. -/
def bundle (kind : Branch) : List Pattern → Pattern
  | [] => .leaf .nothing
  | [part] => part
  | parts => .branch kind parts

mutual

def depth : Pattern → Nat
  | leaf _ | flags _ => 0
  | branch _ parts => depthOfAll parts + 1

def depthOfAll : List Pattern → Nat
  | [] => 0
  | part :: rest => max part.depth (depthOfAll rest)

end

/-- What is in force at a place of a pattern. -/
structure Modes where
  /-- Whether it is about characters and not about bytes. -/
  unicode : Bool
  foldsCase : Bool
  deriving DecidableEq, Repr

def Modes.initial : Modes := ⟨true, false⟩

def Modes.set (m : Modes) (f : Flags) : Modes :=
  ⟨(f.setting? 'u').getD m.unicode, (f.setting? 'i').getD m.foldsCase⟩

/-- Whether the engine knows the characters of a leaf. Among characters it knows neither the cases of letters
nor digits, words and blanks; among bytes it keeps to those that do not break characters up. -/
def Leaf.isKnown (m : Modes) : Leaf → Bool
  | nothing | edge => true
  | literal l => if m.unicode then !m.foldsCase else !(l.isByte && l.isWide)
  | range first last => if m.unicode then !m.foldsCase else !first.isWide && !last.isWide
  | named negated => if m.unicode then !m.foldsCase else !negated
  | shorthand negated => !m.unicode && !negated
  | anyChar => m.unicode
  | wordEdge => !m.unicode

mutual

/-- What is in force behind a pattern, unless the engine does not know it. -/
def modesAfter? (m : Modes) : Pattern → Option Modes
  | leaf l => if l.isKnown m then some m else none
  | flags f => some (m.set f)
  | branch (.group f) parts => (modesAfterAll? (m.set f) parts).map fun _ => m
  | branch (.bracket negated) parts => if negated && !m.unicode then none else modesAfterAll? m parts
  | branch _ parts => modesAfterAll? m parts

def modesAfterAll? (m : Modes) : List Pattern → Option Modes
  | [] => some m
  | part :: rest =>
    match part.modesAfter? m with
    | some m => modesAfterAll? m rest
    | none => none

end

def depthLimit : Nat := 250

/-- Whether the engine can search for a pattern. -/
def isSearchable (p : Pattern) : Bool :=
  p.depth ≤ depthLimit && (p.modesAfter? Modes.initial).isSome

end Pattern

end TagWire
