import TagWire.Json.Basic
import TagWire.Layout.Basic

/-!
# Layouts as JSON

Each gap is an object with all its details, whether they apply or not.
-/

namespace TagWire

namespace Json

def ofText (text : String) : Json := .string text.toList

def ofNat (n : Nat) : Json := .int n

def record (fields : List (String × Json)) : Json :=
  .object (fields.map fun (key, j) => (key.toList, j))

def ofOption {α : Type} (write : α → Json) : Option α → Json
  | some a => write a
  | none => .null

end Json

def Count.toJson : Count → Json
  | .fixed n => .record [("fixed", .ofNat n)]
  | .fromWire => .ofText "from_wire"

def Conversion.toJson : Conversion → Json
  | .identity => .ofText "identity"
  | .narrow => .ofText "narrow_float64"
  | .pad wire signed => .record [("pad", .record [("wire", .ofNat wire), ("signed", .bool signed)])]

/-- The size of an element, unless each brings its own. -/
def sizeToJson : Option Nat → Json
  | some size => .record [("fixed", .ofNat size)]
  | none => .ofText "variable"

/-- A gap with the place of its tag words in the template. -/
def Gap.toJson (placed : Gap × Nat × Nat) : Json :=
  let (g, start, stop) := placed
  .record [
    ("template", .record [("start", .ofNat start), ("end", .ofNat stop)]),
    ("count", g.count.toJson),
    ("unit", sizeToJson g.size?),
    ("flavor", .ofOption (fun p => .ofText p.kind.name) g.payload?),
    ("conversion", g.conversion.toJson),
    ("ignore_external", .bool g.isHidden),
    ("save_external", .bool ((g.use?.map Use.isSaved).getD false)),
    ("load_external", .bool ((g.use?.map Use.isLoaded).getD false)),
    ("computed", .bool g.isDerivation),
    ("derivation", .ofOption (fun d => .ofText d.name) g.derivation?),
    ("origin", .ofText g.origin),
    ("bound_name", .ofOption .ofText g.name?),
    ("literal", .ofOption (fun i => .int i.toInt) (g.use?.bind Use.literal?))]

def Layout.toJson (l : Layout) : Json :=
  .record [("gaps", .array (l.placed.map Gap.toJson)), ("grammar", .ofText l.grammar)]

end TagWire
