import TagWire.Error

/-!
# Faults of a grammar

What can be wrong with a grammar, and the wording of it.
-/

namespace TagWire.Layout

/-- What a grammar lacked when it ended. -/
inductive Wanted where
  | field
  | derivation
  | typeAfterSkip
  | typeAfterSave
  | typeAfterLoad
  | elementType
  | length
  | data
  deriving DecidableEq, Repr

def Wanted.describe : Wanted → String
  | field => "a field"
  | derivation => "a derivation name after 'compute'"
  | typeAfterSkip => "a type after 'skip'"
  | typeAfterSave => "a type after a save directive"
  | typeAfterLoad => "a type after a load directive"
  | elementType => "an element type"
  | length => "a length"
  | data => "'*' data placeholder"

inductive Fault where
  | ended (wanted : Wanted)
  | listTooShort (expected found : Nat)
  | unknownDerivation
  | skippedLoad
  | noType
  | openList
  | noLength
  | lengthOutOfRange
  | noData
  | badWireSize
  | vectorOfItems
  | strayItem
  | unknownType
  | sizedItemVector
  | unfitLoad
  | savedList
  | badLiteral (error : Error)
  | unfitLiteral
  | secondMessage
  deriving DecidableEq, Repr

def Fault.message : Fault → String
  | ended wanted => "grammar ended, expected " ++ wanted.describe
  | listTooShort expected found =>
    "list expects " ++ toString expected ++ " fields, found " ++ toString found
  | unknownDerivation => "unknown derivation"
  | skippedLoad => "a skipped field cannot be loaded"
  | noType => "expected a type keyword"
  | openList => "a list needs a fixed length, not '*'"
  | noLength => "expected a length or '*'"
  | lengthOutOfRange => "length out of range"
  | noData => "expected '*' data placeholder"
  | badWireSize => "bad wire size"
  | vectorOfItems => "a vector cannot hold 'item'"
  | strayItem => "'item' is only valid inside item_vector"
  | unknownType => "unknown type"
  | sizedItemVector => "give wire sizes on the items of an item_vector"
  | unfitLoad => "load needs a scalar integer or vocab field"
  | savedList => "a list cannot be saved"
  | badLiteral error => "bad literal: " ++ error.message
  | unfitLiteral => "literal must start with an integer or vocab"
  | secondMessage =>
    "a message is a single list; only skipped, saved or computed fields may follow it"

/-- What is found while a grammar is read: a fault at a place, or a size that no conversion reaches. -/
inductive Finding where
  | fault (position : Nat) (token : String) (what : Fault)
  | noConversion (origin : String) (kind : Kind) (wire : Nat)
  deriving DecidableEq, Repr

namespace Finding

def issue? : Finding → Option Issue
  | fault position token what => some ⟨position, token, what.message⟩
  | noConversion .. => none

def refusal? : Finding → Option Error
  | fault .. => none
  | noConversion origin kind wire =>
    some (.unsupportedConversion origin kind.name (kind.size?.getD 0) wire)

/-- The error that findings amount to. Faults are reported together and come before any size. -/
def error? (findings : List Finding) : Option Error :=
  match findings.filterMap issue? with
  | [] => (findings.filterMap refusal?).head?
  | issues => some (.grammar issues)

end Finding

end TagWire.Layout
