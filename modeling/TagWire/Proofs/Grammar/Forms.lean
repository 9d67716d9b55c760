import TagWire.Layout.Parse

/-!
# The grammar of layouts

What a grammar may say, apart from how it is read. A text falls into words and the words into
sections; a section is a sequence of fields, each with the words of the fields inside it.

- `Grammar.words`, `Grammar.sections`: the words of a text, and its sections.
- `Grammar.Signs`, `Grammar.Body`: directives, and what stands behind them.
- `Grammar.Form`: the words of a field.
- `Grammar.Section`: the words of a section.
-/

namespace TagWire.Grammar

open Layout (ElementType)

/-- The longest runs of a text without separators. -/
def words (text : String) : List String :=
  ((text.toList.splitOnP isSeparator).filter (· ≠ [])).map String.ofList

/-- What stands between words that are three dashes. -/
def sections (text : String) : List (List String) := (words text).splitOn "---"

/-- Some digits, and the number that they spell. -/
def Numeral (word : String) (n : Nat) : Prop :=
  word ≠ "" ∧ (∀ c ∈ word.toList, c.isDigit = true) ∧ Decimal.natOfDigits word.toList = n

/-- A length fits in a signed number of four bytes. -/
def Length (word : String) (n : Nat) : Prop := Numeral word n ∧ n < 0x80000000

/-- The size of an element outside, behind a colon. -/
inductive Size : String → Option Nat → Prop
  | untold : Size "" none
  | told {digits n} (numeral : Numeral digits n) : Size (":" ++ digits) (some n)
  | plus {digits n} (numeral : Numeral digits n) : Size (":+" ++ digits) (some n)

/-- The sizes outside that values of a kind can have: their own, four bytes for a float of eight,
and up to eight bytes for integers. -/
def Reaches (kind : Kind) : Option Nat → Prop
  | none => True
  | some wire => ∃ size, kind.size? = some size ∧
    (wire = size ∨ kind = .float64 ∧ wire = 4 ∨ kind.isNumeral = true ∧ size < wire ∧ wire ≤ 8)

/-- The spellings of a type where `item` stands for a kind, or for none. -/
inductive Typed (item : Option (Kind × Bool)) : String → ElementType → Prop
  | keyword {word size kind wire} (known : Kind.ofKeyword? word = some kind) (sized : Size size wire)
      (reached : Reaches kind wire) :
      Typed item (word ++ size) ⟨kind, Kind.unsignedKeyword word, false, wire⟩
  | item {size kind isUnsigned wire} (stands : item = some (kind, isUnsigned))
      (sized : Size size wire) (reached : Reaches kind wire) :
      Typed item ("item" ++ size) ⟨kind, isUnsigned, true, wire⟩

/-- What is loaded under a name: the integer that a text behind an equals sign begins with, or else
a property. -/
inductive Loads (name : String) : Option Int64 → Prop
  | property (plain : name.toList.head? ≠ some '=') : Loads name none
  | literal {text v i} (given : name = "=" ++ text) (parsed : Value.parse text = .ok v)
      (first : (v.get? 0).bind Value.asInt = some i) : Loads name (some (Int64.ofInt i))

/-- The directives in front of a field, and what becomes of its data. -/
inductive Signs (isHidden : Bool) : List String → Use → Prop
  | none : Signs isHidden [] (if isHidden then .skipped else .exchanged)
  | skip : Signs isHidden ["skip"] .skipped
  | save {name} (named : name ≠ "") : Signs isHidden [">" ++ name] (.saved name)
  | skipSave {name} (named : name ≠ "") : Signs isHidden ["skip", ">" ++ name] (.saved name)
  | load {name literal} (named : name ≠ "") : Signs isHidden ["<" ++ name] (.loaded name literal)

/-- What a field is, apart from its directives. -/
inductive Shape where
  | scalar (element : ElementType)
  | vector
  /-- A list of so many fields, in which `item` stands for a kind, or for none. -/
  | list (inner : Option (Kind × Bool)) (length : Nat)
  deriving DecidableEq, Repr

/-- The words of a field behind its directives and in front of the fields inside it. -/
inductive Body (item : Option (Kind × Bool)) : List String → Shape → Prop
  | scalar {type element} (typed : Typed item type element) :
      Body item [type, "*"] (.scalar element)
  | openVector {type element} (typed : Typed none type element) :
      Body item ["vector", type, "*"] .vector
  | vector {type element length n} (typed : Typed none type element) (told : Length length n) :
      Body item ["vector", type, length, "*"] .vector
  | list {length n} (told : Length length n) : Body item ["list", length] (.list none n)
  | itemVector {type kind length n} (known : Kind.ofKeyword? type = some kind)
      (told : Length length n) :
      Body item ["item_vector", type, length] (.list (some (kind, Kind.unsignedKeyword type)) n)

/-- Where a load may stand, and under what name. -/
def Loadable (isHidden : Bool) : Use → Prop
  | .loaded name literal => isHidden = false ∧ Loads name literal
  | _ => True

/-- What directives may stand in front of: only integers in their own width are loaded, and a list
that brings no kind for its items is not saved. -/
def Fits : Use → Shape → Prop
  | .loaded .., shape => ∃ element, shape = .scalar element ∧ element.kind.isInteger = true ∧
    (element.wire = none ∨ element.wire = element.kind.size?)
  | .saved _, shape => ∀ n, shape ≠ .list none n
  | _, _ => True

/-- The rule of the compiler for directives. -/
def Permitted (isHidden : Bool) (use : Use) (shape : Shape) : Prop :=
  Loadable isHidden use ∧ Fits use shape

/-- The rule that only scalars are loaded, and all else may have any directive. -/
def LoadsScalars (_ : Bool) (use : Use) (shape : Shape) : Prop :=
  use.isLoaded = true → ∃ element, shape = .scalar element

/-- Whether fields make up the inside of a field, given for each of them whether it is visible. A
list ends with the visible field that completes it; a hidden list counts fields of any kind. -/
def Shape.Filled (isHidden : Bool) : Shape → List Bool → Prop
  | list _ length, visible =>
    if isHidden then visible.length = length
    else visible.count true = length ∧ visible.getLast? ≠ some false
  | _, visible => visible = []

/-- What `item` stands for inside a field. -/
def Shape.inner : Shape → Option (Kind × Bool)
  | list inner _ => inner
  | _ => none

variable (rule : Bool → Use → Shape → Prop)

/-- The words of a field, and whether it is visible, given what `item` stands for around it and
whether it is inside of what is hidden. A rule says what directives may stand in front of. -/
inductive Form : Option (Kind × Bool) → Bool → Bool × List String → Prop
  | compute {item isHidden name derivation} (known : Derivation.ofName? name = some derivation) :
      Form item isHidden (false, ["compute", name])
  | field {item isHidden signs body use shape} {inside : List (Bool × List String)}
      (directed : Signs isHidden signs use) (shaped : Body item body shape)
      (ruled : rule isHidden use shape)
      (each : ∀ f ∈ inside, Form shape.inner use.isHidden f)
      (filled : shape.Filled use.isHidden (inside.map Prod.fst)) :
      Form item isHidden (!use.isHidden, signs ++ body ++ inside.flatMap Prod.snd)

/-- The words of a section. If there is any list or vector in it, it has one visible field
at most. -/
def Section (words : List String) : Prop :=
  ∃ fields : List (Bool × List String), (∀ f ∈ fields, Form rule none false f) ∧
    words = fields.flatMap Prod.snd ∧
    ((∃ word ∈ words, word = "list" ∨ word = "vector" ∨ word = "item_vector") →
      (fields.map Prod.fst).count true ≤ 1)

end TagWire.Grammar
