import TagWire.Value.Basic

/-!
# Grammars from samples

A grammar that fits a value: a list whose items share a kind is a vector of fixed length, any other list a
list with one field per item.
-/

namespace TagWire.Value

mutual

/-- The words of the grammar that fits a value. -/
def sampleWords : Value → List String
  | list items =>
    match shared items with
    | some kind => ["vector", kind.name, toString items.length, "*"]
    | none => "list" :: toString items.length :: sampleItems items
  | v => [(v.kind?.map Kind.name).getD "blob", "*"]

def sampleItems : List Value → List String
  | [] => []
  | v :: rest => v.sampleWords ++ sampleItems rest

end

/-- The grammar that fits a value. -/
def sampleGrammar (v : Value) : String := " ".intercalate v.sampleWords

end TagWire.Value
