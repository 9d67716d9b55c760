import TagWire.Word

/-!
# Layouts

A layout says how a message looks on the wire of a system that knows nothing of tags. It is a list of
gaps: tag words that only the tagged form has, and behind them at most one piece of external data.
-/

namespace TagWire

/-- The number of elements of a piece of data. -/
inductive Count where
  | fixed (n : Nat)
  /-- Four bytes in front of the data tell the number. -/
  | fromWire
  deriving DecidableEq, Repr

/-- How an element changes between its tagged and its external form. -/
inductive Conversion where
  | identity
  /-- A float64 is a float32 outside. -/
  | narrow
  /-- An integer takes `wire` bytes outside; the further bytes repeat the sign or are zero. -/
  | pad (wire : Nat) (signed : Bool)
  deriving DecidableEq, Repr

/-- What becomes of a piece of external data. -/
inductive Use where
  /-- It is part of the tagged message. -/
  | exchanged
  /-- It is only outside. -/
  | skipped
  /-- It is only outside, and kept as a property. -/
  | saved (name : String)
  /-- It is only in the tagged message, and taken from a property or given by the layout. -/
  | loaded (name : String) (literal : Option Int64)
  deriving DecidableEq, Repr

namespace Use

/-- Whether the data is missing in the tagged message. -/
def isHidden : Use → Bool
  | skipped | saved _ => true
  | exchanged | loaded .. => false

def isSaved : Use → Bool
  | saved _ => true
  | _ => false

def isLoaded : Use → Bool
  | loaded .. => true
  | _ => false

/-- The name of a property that the use mentions. -/
def name? : Use → Option String
  | saved name | loaded name _ => some name
  | _ => none

/-- The value that the layout itself gives. -/
def literal? : Use → Option Int64
  | loaded _ literal => literal
  | _ => none

end Use

/-- Properties that are worked out from others. -/
inductive Derivation where
  /-- Image geometry from width, height, step, byte order and encoding. -/
  | imageParams
  deriving DecidableEq, Repr

namespace Derivation

def name : Derivation → String
  | imageParams => "image_params"

def ofName? (name : String) : Option Derivation :=
  if name = imageParams.name then some imageParams else none

end Derivation

/-- A piece of external data, with the grammar text that declares it. -/
structure Payload where
  count : Count
  kind : Kind
  conversion : Conversion
  use : Use
  origin : String
  deriving DecidableEq, Repr

/-- Bytes of one element outside; none where each element brings its length. -/
def Payload.wireSize? (p : Payload) : Option Nat :=
  p.kind.size?.map fun size =>
    match p.conversion with
    | .identity => size
    | .narrow => 4
    | .pad wire _ => wire

/-- What stands behind the tag words of a gap. -/
inductive Content where
  | nothing
  | derivation (derivation : Derivation) (origin : String)
  | data (payload : Payload)
  deriving DecidableEq, Repr

/-- Tag words and what stands behind them. -/
structure Gap where
  words : List Word
  content : Content
  deriving DecidableEq, Repr

namespace Gap

def payload? (g : Gap) : Option Payload :=
  match g.content with
  | .data p => some p
  | _ => none

/-- The grammar text that made the gap; empty for tag words alone. -/
def origin (g : Gap) : String :=
  match g.content with
  | .nothing => ""
  | .derivation _ origin => origin
  | .data p => p.origin

/-- Whether the gap is missing in the tagged message. -/
def isHidden (g : Gap) : Bool :=
  match g.content with
  | .nothing => false
  | .derivation .. => true
  | .data p => p.use.isHidden

def isDerivation (g : Gap) : Bool :=
  match g.content with
  | .derivation .. => true
  | _ => false

def derivation? (g : Gap) : Option Derivation :=
  match g.content with
  | .derivation derivation _ => some derivation
  | _ => none

def use? (g : Gap) : Option Use := g.payload?.map Payload.use

/-- The number of elements; tag words alone have none. -/
def count (g : Gap) : Count :=
  match g.content with
  | .nothing => .fixed 0
  | .derivation .. => .fixed 1
  | .data p => p.count

/-- Bytes of one element in the tagged form; zero without data, none where each brings its length. -/
def size? (g : Gap) : Option Nat := (g.payload?.map fun p => p.kind.size?).getD (some 0)

/-- Bytes of one element outside. -/
def wireSize? (g : Gap) : Option Nat := (g.payload?.map Payload.wireSize?).getD (some 0)

def conversion (g : Gap) : Conversion := (g.payload?.map Payload.conversion).getD .identity

/-- The property or derivation that the gap is bound to. -/
def name? (g : Gap) : Option String :=
  match g.content with
  | .nothing => none
  | .derivation derivation _ => some derivation.name
  | .data p => p.use.name?

/-- The bytes of the tag words. -/
def template (g : Gap) : Bytes := g.words.flatMap Word.toBytes

end Gap

structure Layout where
  gaps : List Gap
  grammar : String
  deriving DecidableEq, Repr

namespace Layout

/-- The bytes of all tag words. -/
def template (l : Layout) : Bytes := l.gaps.flatMap Gap.template

/-- The gaps with the places of their tag words in the template, `start` bytes in. -/
def placeFrom (start : Nat) : List Gap → List (Gap × Nat × Nat)
  | [] => []
  | g :: rest => (g, start, start + 4 * g.words.length) :: placeFrom (start + 4 * g.words.length) rest

def placed (l : Layout) : List (Gap × Nat × Nat) := placeFrom 0 l.gaps

end Layout

end TagWire
