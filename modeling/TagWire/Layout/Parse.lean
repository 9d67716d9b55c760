import TagWire.Decimal.Numeral
import TagWire.Layout.Fault
import TagWire.Layout.Field
import TagWire.Layout.Token
import TagWire.Value.Parse

/-!
# Fields, read from tokens

Each field begins with a head: directives, a type, a length and a placeholder for data. The head of a
list is followed by the fields that it holds. A fault ends its head, and reading goes on with the token
behind it, so one fault does not hide another.

- `Head.read`: the head of one field.
- `Field.readSection`: all fields of a section, with what was found to be wrong.
-/

namespace TagWire.Layout

/-- What the surroundings of a field decide. -/
structure Scope where
  /-- Where the section ends. -/
  stop : Nat
  /-- The kind that `item` stands for, and whether it is unsigned. -/
  item : Option (Kind × Bool) := none
  /-- Inside a list that is hidden. -/
  isHidden : Bool := false
  deriving DecidableEq, Repr

/-- The beginning of a field: all of it, or the beginning of a list of fields. -/
inductive Head where
  | whole (field : Field)
  | opening (isHidden : Bool) (words : List Word) (item : Option (Kind × Bool)) (length : Nat)
  deriving Repr

/-- A type as it is spelled in a grammar. -/
structure ElementType where
  kind : Kind
  isUnsigned : Bool
  isItem : Bool
  wire : Option Nat
  deriving DecidableEq, Repr

/-- The conversion that a wire size asks for, if there is one. -/
def conversion? (kind : Kind) (signed : Bool) (wire : Option Nat) : Option Conversion :=
  match wire, kind.size? with
  | none, _ => some .identity
  | some _, none => none
  | some wire, some size =>
    if size = wire then some .identity
    else if kind = .float64 ∧ wire = 4 then some .narrow
    else if kind.isNumeral ∧ size < wire ∧ wire ≤ 8 then some (.pad wire signed)
    else none

/-- A computation on the tokens of a section that may end with a finding. -/
abbrev Step := ExceptT Finding (StateM (List Token))

def Token.fault (t : Token) (fault : Fault) : Finding := .fault t.start t.text fault

namespace Head

def next (scope : Scope) (wanted : Wanted) : Step Token := fun tokens =>
  match tokens with
  | [] => (.error (.fault scope.stop "" (.ended wanted)), [])
  | t :: rest => (.ok t, rest)

/-- The text from the tokens at `start` up to the place reached. -/
def originFrom (start : List Token) : Step String := do
  let rest ← get
  return Token.spell (start.take (start.length - rest.length))

/-- The word and the wire size of a type, which a colon divides. -/
def splitType (text : List Char) : List Char × Option (List Char) :=
  match text.dropWhile (· ≠ ':') with
  | [] => (text, none)
  | _ :: size => (text.takeWhile (· ≠ ':'), some size)

/-- A wire size: a positive number of 64 bits, with or without a plus sign. -/
def wireSize? (text : List Char) : Option Nat :=
  let digits := match text with
    | '+' :: digits => digits
    | digits => digits
  let n := Decimal.natOfDigits digits
  if digits ≠ [] ∧ digits.all Char.isDigit ∧ 0 < n ∧ n < 0x10000000000000000 then some n else none

/-- The type that a word names, with a wire size behind it. -/
def namedType (scope : Scope) (inVector : Bool) (t : Token) (word : String) (wire : Option Nat) :
    Except Finding ElementType :=
  if word = "item" then
    if inVector then .error (t.fault .vectorOfItems)
    else
      match scope.item with
      | some (kind, isUnsigned) => .ok ⟨kind, isUnsigned, true, wire⟩
      | none => .error (t.fault .strayItem)
  else
    match Kind.ofKeyword? word with
    | some kind => .ok ⟨kind, Kind.unsignedKeyword word, false, wire⟩
    | none => .error (t.fault .unknownType)

/-- Reads the spelling of a type. -/
def elementType (scope : Scope) (inVector : Bool) (t : Token) : Except Finding ElementType :=
  if t.lexeme ≠ .keyword then .error (t.fault .noType)
  else
    let (word, size) := splitType t.text.toList
    match size with
    | none => namedType scope inVector t (String.ofList word) none
    | some size =>
      match wireSize? size with
      | some n => namedType scope inVector t (String.ofList word) (some n)
      | none => .error (t.fault .badWireSize)

/-- The conversion of an element, refused where there is none. -/
def conversion (start : List Token) (element : ElementType) : Step Conversion := do
  match conversion? element.kind (!element.isUnsigned) element.wire with
  | some conversion => return conversion
  | none => throw (.noConversion (← originFrom start) element.kind (element.wire.getD 0))

/-- The length of a vector. -/
def vectorLength (scope : Scope) : Step Count := do
  let t ← next scope .length
  match t.lexeme with
  | .length =>
    let n := Decimal.natOfDigits t.text.toList
    if n < 0x80000000 then return .fixed n else throw (t.fault .lengthOutOfRange)
  | .wildcard => return .fromWire
  | _ => throw (t.fault .noLength)

/-- The length of a list, which has to be fixed. -/
def listLength (scope : Scope) : Step Nat := do
  let t ← next scope .length
  match t.lexeme with
  | .length =>
    let n := Decimal.natOfDigits t.text.toList
    if n < 0x80000000 then return n else throw (t.fault .lengthOutOfRange)
  | .wildcard => throw (t.fault .openList)
  | _ => throw (t.fault .noLength)

/-- The placeholder for data. A token that is none stays where it is. -/
def placeholder (scope : Scope) : Step Unit := fun tokens =>
  match tokens with
  | [] => (.error (.fault scope.stop "" (.ended .data)), [])
  | t :: rest =>
    if t.lexeme = .wildcard then (.ok (), rest) else (.error (t.fault .noData), t :: rest)

/-- The integer of a literal: the first item of its text. -/
def literal (t : Token) (text : String) : Except Finding Int64 :=
  match Value.parse text with
  | .error error => .error (t.fault (.badLiteral error))
  | .ok v =>
    match (v.get? 0).bind Value.asInt with
    | some i => .ok (Int64.ofInt i)
    | none => .error (t.fault .unfitLiteral)

/-- Whether the field is hidden before any save directive, and the token behind a skip directive. -/
def skipDirective (scope : Scope) (first : Token) : Step (Bool × Token) := do
  if first.isWord "skip" then return (true, ← next scope .typeAfterSkip)
  else return (scope.isHidden, first)

/-- The use of the field, and the token behind a save or load directive. -/
def useDirective (scope : Scope) (isHidden : Bool) (t : Token) : Step (Use × Token) := do
  match t.lexeme with
  | .save => return (.saved t.name, ← next scope .typeAfterSave)
  | .load =>
    if isHidden then throw (t.fault .skippedLoad)
    let value ← match t.name.toList with
      | '=' :: text => some <$> literal t (String.ofList text)
      | _ => pure none
    return (.loaded t.name value, ← next scope .typeAfterLoad)
  | _ => return (if isHidden then .skipped else .exchanged, t)

/-- Refuses to load what is no scalar integer in its own width. -/
def refuseLoad (use : Use) (t : Token) : Except Finding Unit :=
  match use with
  | .loaded .. => .error (t.fault .unfitLoad)
  | _ => .ok ()

/-- Tag words that the field has unless it is hidden. -/
def unlessHidden (use : Use) (words : List Word) : List Word :=
  if use.isHidden then [] else words

def lengthWords : Count → List Word
  | .fixed n => [Word.ofTag n]
  | .fromWire => []

def readScalar (scope : Scope) (start : List Token) (use : Use) (t : Token) : Step Head := do
  placeholder scope
  let element ← elementType scope false t
  let conversion ← conversion start element
  if conversion ≠ .identity ∨ !element.kind.isInteger then refuseLoad use t
  let words := if element.isItem then [] else [Word.ofKind element.kind]
  return .whole (.data (unlessHidden use words)
    ⟨.fixed 1, element.kind, conversion, use, ← originFrom start⟩)

def readVector (scope : Scope) (start : List Token) (use : Use) (t : Token) : Step Head := do
  let type ← next scope .elementType
  let count ← vectorLength scope
  if count ≠ .fromWire then placeholder scope
  let element ← elementType scope true type
  let conversion ← conversion start element
  refuseLoad use t
  return .whole (.data (unlessHidden use (Word.ofList (some element.kind) :: lengthWords count))
    ⟨count, element.kind, conversion, use, ← originFrom start⟩)

def readItemVector (scope : Scope) (use : Use) (t : Token) : Step Head := do
  let type ← next scope .elementType
  let n ← listLength scope
  let element ← elementType scope true type
  if element.wire.isSome then throw (type.fault .sizedItemVector)
  refuseLoad use t
  return .opening use.isHidden (unlessHidden use [Word.ofList (some element.kind), Word.ofTag n])
    (some (element.kind, element.isUnsigned)) n

def readList (scope : Scope) (use : Use) (t : Token) : Step Head := do
  let n ← listLength scope
  refuseLoad use t
  match use with
  | .saved _ => throw (t.fault .savedList)
  | _ => return .opening use.isHidden (unlessHidden use [Word.ofList none, Word.ofTag n]) none n

def readDerivation (scope : Scope) (start : List Token) : Step Head := do
  let t ← next scope .derivation
  match Derivation.ofName? t.text with
  | some derivation => return .whole (.derive derivation (← originFrom start))
  | none => throw (t.fault .unknownDerivation)

/-- The head of the field at the place reached. -/
def read (scope : Scope) : Step Head := do
  let start ← get
  let first ← next scope .field
  if first.isWord "compute" then readDerivation scope start
  else
    let (isHidden, t) ← skipDirective scope first
    let (use, t) ← useDirective scope isHidden t
    if t.lexeme ≠ .keyword then throw (t.fault .noType)
    match t.text with
    | "list" => readList scope use t
    | "vector" => readVector scope start use t
    | "item_vector" => readItemVector scope use t
    | _ => readScalar scope start use t

end Head

/-- The place reached in a section, and what was found on the way. -/
structure Progress where
  rest : List Token
  findings : List Finding := []
  deriving Repr

abbrev Parse := StateM Progress

namespace Parse

def record (finding : Finding) : Parse Unit :=
  modify fun p => { p with findings := p.findings ++ [finding] }

/-- Takes a step, and records the finding that ends it. -/
def attempt {α : Type} (step : Step α) : Parse (Option α) := fun p =>
  match step.run p.rest with
  | (.ok a, rest) => (some a, { p with rest })
  | (.error finding, rest) => (none, ⟨rest, p.findings ++ [finding]⟩)

/-- One field, given how the fields of a list are read; none if its head is faulty. -/
def field (listFields : Scope → Nat → Parse (List Field)) (scope : Scope) : Parse (Option Field) := do
  match ← attempt (Head.read scope) with
  | none => return none
  | some (.whole field) => return some field
  | some (.opening isHidden words item length) =>
    let fields ← listFields { scope with item, isHidden } length
    return some (.group isHidden words fields)

/-- A field that could not be read counts as visible, so that the lists around it still end. -/
def countsAsVisible (field : Option Field) : Bool := (field.map Field.isVisible).getD true

/-- The fields of a list of `length` fields, of which `found` have been read. Each field takes a token, so
`fuel` need only exceed the number of tokens. -/
def listFields : (fuel : Nat) → Scope → (length found : Nat) → Parse (List Field)
  | 0, _, _, _ => return []
  | fuel + 1, scope, length, found => do
    if length ≤ found then return []
    if (← get).rest = [] then
      record (.fault scope.stop "" (.listTooShort length found))
      return []
    let first ← field (fun scope length => listFields fuel scope length 0) scope
    let found := if scope.isHidden ∨ countsAsVisible first then found + 1 else found
    let others ← listFields fuel scope length found
    return first.toList ++ others

/-- The fields of a section, of which `visible` visible ones have been read. Unless the section is
`wrapped` in a list of its own, there may be only one of these. -/
def sectionFields (wrapped : Bool) : (fuel : Nat) → Scope → (visible : Nat) → Parse (List Field)
  | 0, _, _ => return []
  | fuel + 1, scope, visible => do
    match (← get).rest with
    | [] => return []
    | t :: _ =>
      let first ← field (fun scope length => listFields fuel scope length 0) scope
      let visible := if countsAsVisible first then visible + 1 else visible
      if countsAsVisible first ∧ !wrapped ∧ visible = 2 then record (t.fault .secondMessage)
      let others ← sectionFields wrapped fuel scope visible
      return first.toList ++ others

end Parse

/-- A section without any container is a list of its own. -/
def isWrapped (tokens : List Token) : Bool :=
  !tokens.any fun t => t.isWord "list" ∨ t.isWord "vector" ∨ t.isWord "item_vector"

/-- The fields of a section and what is wrong with it. -/
def readFields (tokens : List Token) : List Field × List Finding :=
  let parse := Parse.sectionFields (isWrapped tokens) (tokens.length + 1) ⟨Token.stopOf tokens, none, false⟩ 0
  let (fields, progress) := parse.run ⟨tokens, []⟩
  (fields, progress.findings)

end TagWire.Layout
