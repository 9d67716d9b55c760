import TagWire.Error
import TagWire.Layout.Basic
import TagWire.Properties.Basic
import TagWire.Vocab

/-!
# Image geometry

The size of an image in memory, worked out from the properties that its fields have left: `width`,
`height`, `step` (bytes from row to row), `encoding`, and the byte order if it is known.

- `Image.rowQuantum`: the alignment that explains the step.
- `Properties.derive`: adds what a derivation gives, or nothing if it fails.
-/

namespace TagWire

namespace Image

/-- Bytes per pixel, and the name of the pixel format. -/
structure PixelFormat where
  depth : Nat
  name : String
  deriving DecidableEq, Repr

/-- The pixel format of an encoding. The mosaics of colour sensors are kept as they are. -/
def pixelFormat? (encoding : String) : Option PixelFormat :=
  match encoding with
  | "bgr8" => some ⟨3, "bgr"⟩
  | "rgb8" => some ⟨3, "rgb"⟩
  | "32FC1" => some ⟨4, "dec"⟩
  | "16UC1" | "mono16" => some ⟨2, "mo16"⟩
  | "mono8" => some ⟨1, "mono"⟩
  | "bayer_grbg8" => some ⟨1, "grbg"⟩
  | _ => if "bayer".toList.isPrefixOf encoding.toList then some ⟨1, "mono"⟩ else none

/-- The number, where 64 bits hold it. -/
def checked (i : Int) : Option Int64 :=
  if -0x8000000000000000 ≤ i ∧ i < 0x8000000000000000 then some (Int64.ofInt i) else none

/-- A row rounded up to a multiple of an alignment; the sum on the way has to fit 64 bits. -/
def roundUp (row : Int64) (alignment : Nat) : Option Int :=
  (checked (row.toInt + (alignment - 1))).map fun sum => sum.toInt.tdiv alignment * alignment

/-- The alignments that are tried. -/
def alignments : List Nat := [2, 4, 8, 16, 32, 64, 128, 256, 512]

/-- The least alignment that pads a row to the step: one for a row without padding, and the step itself
where no power of two up to 512 does it. -/
def rowQuantum (row step : Int64) : Int64 :=
  if step = row then 1
  else
    match alignments.find? fun a => roundUp row a = some step.toInt with
    | some alignment => Int64.ofInt alignment
    | none => step

end Image

namespace Properties

/-- An integer that image geometry needs. -/
def needInt (p : Properties) (name : String) : Except Error Int64 :=
  match p.int? name with
  | some v => .ok v
  | none => .error (.missingProperty name Derivation.imageParams.name)

def needText (p : Properties) (name : String) : Except Error String :=
  match p.text? name with
  | some text => .ok text
  | none => .error (.missingProperty name Derivation.imageParams.name)

/-- Adds depth, size, row alignment and pixel format of an image. -/
def imageParams (p : Properties) : Except Error Properties := do
  let width ← p.needInt "width"
  let height ← p.needInt "height"
  let step ← p.needInt "step"
  let encoding ← p.needText "encoding"
  if p.int? "is_bigendian" = some 1 then
    throw (.unsupportedEncoding encoding "big-endian images are not supported")
  let some format := Image.pixelFormat? encoding
    | throw (.unsupportedEncoding encoding "no pixel format for this encoding")
  let geometry (i : Int) : Except Error Int64 :=
    match Image.checked i with
    | some v => .ok v
    | none => .error (.parse Derivation.imageParams.name
        ("image geometry overflows (width " ++ toString width.toInt ++ ", height " ++
          toString height.toInt ++ ", step " ++ toString step.toInt ++ ")"))
  let row ← geometry (width.toInt * format.depth)
  let size ← geometry (step.toInt * height.toInt)
  let pixels := (Vocab.pack format.name).toInt
  return ((((p.put "depth" (.int (Int64.ofInt format.depth))).put "img_size" (.int size)).put
    "quantum" (.int (Image.rowQuantum row step))).put "translated_encoding" (.int (Int64.ofInt pixels)))

def derive (p : Properties) : Derivation → Except Error Properties
  | .imageParams => p.imageParams

end Properties

end TagWire
