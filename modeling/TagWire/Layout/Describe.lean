import TagWire.Layout.Basic

/-!
# Descriptions of layouts

- `Layout.describe`: one line with the bytes that each gap expects outside.
- `Layout.display`: a block of lines for each gap.
-/

namespace TagWire

/-- What a piece of data looks like outside. -/
def Payload.describe (p : Payload) : String :=
  match p.count, p.wireSize? with
  | .fromWire, none =>
    "[4-byte length] [<length> instances of 4-byte-length bytes followed by specified number of bytes]"
  | .fromWire, some size => "[4-byte length] [<length>*" ++ toString size ++ " bytes]"
  | .fixed 1, none => "[4-byte length] [<length> bytes]"
  | .fixed n, none =>
    "[" ++ toString n ++ " instances of 4-byte-length bytes followed by specified number of bytes]"
  | .fixed 1, some size => "[" ++ toString size ++ " bytes]"
  | .fixed n, some size => "[" ++ toString n ++ "*" ++ toString size ++ " bytes]"

namespace Gap

/-- The origin of a gap and what it expects outside. -/
def describe (g : Gap) : List String :=
  (if g.origin = "" then [] else [g.origin]) ++ (g.payload?.map Payload.describe).toList

/-- What becomes of the external data of a gap. -/
def displayContent (g : Gap) : List String :=
  match g.content with
  | .nothing => []
  | .derivation derivation _ => ["  Computes " ++ derivation.name]
  | .data p =>
    match p.use with
    | .exchanged => ["  Expect " ++ p.describe]
    | .skipped => ["  External data will be ignored"]
    | .saved name => ["  External data will be ignored", "  Saved as '" ++ name ++ "'"]
    | .loaded name _ => ["  Loaded from '" ++ name ++ "'"]

end Gap

namespace Layout

/-- One line with every gap. -/
def describe (l : Layout) : String := " ".intercalate (l.gaps.flatMap Gap.describe)

/-- The lines for the gaps from number `index` on. -/
def displayFrom (index : Nat) : List (Gap × Nat × Nat) → List String
  | [] => []
  | (g, start, stop) :: rest =>
    ("Block #" ++ toString index ++ " (" ++ g.origin ++ ")") ::
      (if start < stop then ["  Template bytes " ++ toString start ++ ".." ++ toString stop] else []) ++
      g.displayContent ++ displayFrom (index + 1) rest

/-- A block of lines for each gap. -/
def display (l : Layout) : String :=
  String.join ((displayFrom 0 l.placed).map (· ++ "\n"))

end Layout

end TagWire
