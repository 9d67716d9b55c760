import TagWire.Layout.Basic

/-!
# Fields

A grammar declares fields, and a list field holds further fields. Fields that are hidden in the tagged
message take no part in it: they have no tag words, and lists do not count them.

- `Field.layOut`: the gaps of fields. Tag words wait for the next piece of data that is not hidden.
-/

namespace TagWire

inductive Field where
  | derive (derivation : Derivation) (origin : String)
  | data (words : List Word) (payload : Payload)
  | group (isHidden : Bool) (words : List Word) (fields : List Field)
  deriving Repr, Inhabited

namespace Field

/-- Whether the field is part of the tagged message. -/
def isVisible : Field → Bool
  | derive .. => false
  | data _ payload => !payload.use.isHidden
  | group isHidden .. => !isHidden

mutual

/-- The gaps of a field behind tag words that wait, and the words that wait behind it. -/
def gaps (waiting : List Word) : Field → List Gap × List Word
  | derive derivation origin => ([⟨[], .derivation derivation origin⟩], waiting)
  | data words payload =>
    if payload.use.isHidden then ([⟨[], .data payload⟩], waiting)
    else ([⟨waiting ++ words, .data payload⟩], [])
  | group _ words fields => allGaps (waiting ++ words) fields

def allGaps (waiting : List Word) : List Field → List Gap × List Word
  | [] => ([], waiting)
  | field :: rest =>
    let (first, waiting) := field.gaps waiting
    let (others, waiting) := allGaps waiting rest
    (first ++ others, waiting)

end

/-- The gaps of a whole section. Words that still wait at its end make a gap of their own. -/
def layOut (waiting : List Word) (fields : List Field) : List Gap :=
  let (gaps, waiting) := allGaps waiting fields
  if waiting = [] then gaps else gaps ++ [⟨waiting, .nothing⟩]

end Field

end TagWire
