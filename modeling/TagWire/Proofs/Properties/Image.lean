import TagWire.Decoder.Task
import TagWire.Proofs.Stream.Supply

/-!
# Image geometry

Image geometry is derived as a whole or not at all.

- `Image.Geometry`: the properties of an image whose geometry 64 bits hold.
- `Image.Derived`: the four properties that a derivation leaves, all others being as before.
- `Image.Geometry.derive`, `Image.geometry_of_derive`: the geometry is derived just where there is
  one.
- `Task.derive_geometry`: what the derivation does to the properties that a decoder holds.
-/

namespace TagWire

namespace Properties

theorem int?_iff {p : Properties} {name : String} {i : Int64} :
    p.int? name = some i ↔ p.get? name = some (.int i) := by
  unfold int?
  rcases p.get? name with _ | _ | _ <;> simp

theorem needInt_iff {p : Properties} {name : String} {i : Int64} :
    p.needInt name = .ok i ↔ p.get? name = some (.int i) := by
  rw [← int?_iff, needInt]
  cases p.int? name <;> simp

theorem needText_iff {p : Properties} {name text : String} :
    p.needText name = .ok text ↔
      ∃ bytes, p.get? name = some (.bytes bytes) ∧ Utf8.decodeLossy bytes = text := by
  unfold needText text?
  rcases p.get? name with _ | _ | _ <;> simp

end Properties

namespace Image

/-- The numbers that 64 bits hold. -/
def Fits (i : Int) : Prop := -0x8000000000000000 ≤ i ∧ i < 0x8000000000000000

theorem fits_toInt (v : Int64) : Fits v.toInt :=
  ⟨v.le_toInt, v.toInt_lt⟩

theorem toInt_of_fits {i : Int} (fits : Fits i) : (Int64.ofInt i).toInt = i :=
  Int64.toInt_ofInt_of_le fits.1 fits.2

theorem checked_iff {i : Int} {v : Int64} : checked i = some v ↔ Fits i ∧ v.toInt = i := by
  unfold checked
  split
  case isTrue fits =>
    rw [Option.some_inj, ← Int64.toInt_inj, toInt_of_fits fits]
    exact ⟨fun same => ⟨fits, same.symm⟩, fun held => held.2.symm⟩
  case isFalse wide => exact ⟨nofun, fun held => absurd held.1 wide⟩

theorem fits_of_found {i : Int} {v : Int64} {e : Error}
    (found : (match checked i with | some v => Except.ok v | none => .error e) = .ok v) :
    Fits i := by
  cases held : checked i with
  | none =>
    rw [held] at found
    cases found
  | some v => exact (checked_iff.mp held).1

/-- The encodings that have a pixel format of their own. -/
def table : List (String × PixelFormat) :=
  [("bgr8", ⟨3, "bgr"⟩), ("rgb8", ⟨3, "rgb"⟩), ("32FC1", ⟨4, "dec"⟩), ("16UC1", ⟨2, "mo16"⟩),
    ("mono16", ⟨2, "mo16"⟩), ("mono8", ⟨1, "mono"⟩), ("bayer_grbg8", ⟨1, "grbg"⟩)]

/-- The pixel format of an encoding: its own, or the one of all other mosaics. -/
inductive Translates (encoding : String) : PixelFormat → Prop where
  | listed {format : PixelFormat} (member : (encoding, format) ∈ table) : Translates encoding format
  | mosaic (unlisted : encoding ∉ table.map Prod.fst)
      (begun : "bayer".toList <+: encoding.toList) : Translates encoding ⟨1, "mono"⟩

theorem pixelFormat?_iff {encoding : String} {format : PixelFormat} :
    pixelFormat? encoding = some format ↔ Translates encoding format := by
  constructor
  · intro found
    unfold pixelFormat? at found
    split at found
    case h_8 =>
      split at found
      case isTrue begun =>
        cases found
        exact .mosaic (by simp_all [table]) (List.isPrefixOf_iff_prefix.mp begun)
      case isFalse => cases found
    all_goals
      cases found
      exact .listed (by decide)
  · rintro (member | ⟨unlisted, begun⟩)
    · simp only [table, List.mem_cons, List.not_mem_nil, Prod.mk.injEq, or_false] at member
      rcases member with ⟨rfl, rfl⟩ | ⟨rfl, rfl⟩ | ⟨rfl, rfl⟩ | ⟨rfl, rfl⟩ | ⟨rfl, rfl⟩ |
        ⟨rfl, rfl⟩ | ⟨rfl, rfl⟩ <;> rfl
    · unfold pixelFormat?
      split
      case h_8 => exact if_pos (List.isPrefixOf_iff_prefix.mpr begun)
      all_goals exact absurd (by decide) unlisted

theorem Translates.depth_le {encoding : String} {format : PixelFormat}
    (translates : Translates encoding format) : format.depth ≤ 4 := by
  have listed : ∀ entry ∈ table, entry.2.depth ≤ 4 := by decide
  cases translates with
  | listed member => exact listed _ member
  | mosaic => exact Nat.le_of_ble_eq_true rfl

/-- The properties of an image that can be translated and whose geometry 64 bits hold. -/
structure Geometry (p : Properties) (width height step : Int64) (encoding : Bytes)
    (format : PixelFormat) : Prop where
  has_width : p.get? "width" = some (.int width)
  has_height : p.get? "height" = some (.int height)
  has_step : p.get? "step" = some (.int step)
  has_encoding : p.get? "encoding" = some (.bytes encoding)
  little : p.get? "is_bigendian" ≠ some (.int 1)
  translates : Translates (Utf8.decodeLossy encoding) format
  row_fits : Fits (width.toInt * format.depth)
  size_fits : Fits (step.toInt * height.toInt)

/-- The names that a derivation writes. -/
def names : List String := ["depth", "img_size", "quantum", "translated_encoding"]

/-- Four properties more. -/
def describe (p : Properties) (depth size quantum pixels : Int64) : Properties :=
  (((p.put "depth" (.int depth)).put "img_size" (.int size)).put "quantum" (.int quantum)).put
    "translated_encoding" (.int pixels)

/-- The properties that are left when the geometry of an image has been derived. -/
structure Derived (p p' : Properties) (width height step : Int64) (format : PixelFormat) :
    Prop where
  others : ∀ name ∉ names, p'.get? name = p.get? name
  depth : ∃ depth : Int64, p'.get? "depth" = some (.int depth) ∧ depth.toInt = format.depth
  size : ∃ size : Int64, p'.get? "img_size" = some (.int size) ∧
    size.toInt = step.toInt * height.toInt
  quantum : ∃ row : Int64, row.toInt = width.toInt * format.depth ∧
    p'.get? "quantum" = some (.int (rowQuantum row step))
  pixels : ∃ pixels : Int64, p'.get? "translated_encoding" = some (.int pixels) ∧
    pixels.toInt = (Vocab.pack format.name).toInt

theorem get?_describe (p : Properties) (depth size quantum pixels : Int64) (name : String) :
    (describe p depth size quantum pixels).get? name =
      if name = "translated_encoding" then some (.int pixels)
      else if name = "quantum" then some (.int quantum)
      else if name = "img_size" then some (.int size)
      else if name = "depth" then some (.int depth)
      else p.get? name := by
  simp only [describe, Properties.get?_put]

/-- The geometry of an image beside what stands there already. -/
def measured (p : Properties) (width height step : Int64) (format : PixelFormat) : Properties :=
  describe p (Int64.ofInt format.depth)
    (Int64.ofInt (step.toInt * height.toInt))
    (rowQuantum (Int64.ofInt (width.toInt * format.depth)) step)
    (Int64.ofInt (Vocab.pack format.name).toInt)

/-- The geometry of an image is derived. -/
theorem Geometry.derive {p : Properties} {width height step : Int64} {encoding : Bytes}
    {format : PixelFormat} (geometry : Geometry p width height step encoding format) :
    p.imageParams = .ok (measured p width height step format) := by
  have little : p.int? "is_bigendian" ≠ some 1 := mt Properties.int?_iff.mp geometry.little
  have row := checked_iff.mpr ⟨geometry.row_fits, toInt_of_fits geometry.row_fits⟩
  have size := checked_iff.mpr ⟨geometry.size_fits, toInt_of_fits geometry.size_fits⟩
  unfold Properties.imageParams
  rw [Properties.needInt_iff.mpr geometry.has_width, Properties.needInt_iff.mpr geometry.has_height,
    Properties.needInt_iff.mpr geometry.has_step,
    Properties.needText_iff.mpr ⟨_, geometry.has_encoding, rfl⟩]
  simp only [bind, Except.bind, pure, Except.pure, little, if_false,
    pixelFormat?_iff.mpr geometry.translates, row, size]
  rfl

/-- What is derived is the geometry of an image. -/
theorem geometry_of_derive {p p' : Properties} (derived : p.imageParams = .ok p') :
    ∃ width height step encoding format, Geometry p width height step encoding format := by
  unfold Properties.imageParams at derived
  obtain ⟨width, has_width, derived⟩ := Error.bind_ok derived
  obtain ⟨height, has_height, derived⟩ := Error.bind_ok derived
  obtain ⟨step, has_step, derived⟩ := Error.bind_ok derived
  obtain ⟨text, has_text, derived⟩ := Error.bind_ok derived
  obtain ⟨encoding, has_encoding, rfl⟩ := Properties.needText_iff.mp has_text
  by_cases big : p.int? "is_bigendian" = some 1
  · rw [if_pos big] at derived
    cases derived
  rw [if_neg big] at derived
  cases found : pixelFormat? (Utf8.decodeLossy encoding) with
  | none =>
    rw [found] at derived
    cases derived
  | some format =>
    rw [found] at derived
    obtain ⟨row, row_checked, derived⟩ := Error.bind_ok derived
    obtain ⟨size, size_checked, -⟩ := Error.bind_ok derived
    exact ⟨width, height, step, encoding, format, Properties.needInt_iff.mp has_width,
      Properties.needInt_iff.mp has_height, Properties.needInt_iff.mp has_step, has_encoding,
      mt Properties.int?_iff.mpr big, pixelFormat?_iff.mp found, fits_of_found row_checked,
      fits_of_found size_checked⟩

/-- The names that an image is known by are not among those that are written. -/
theorem Geometry.describe {p : Properties} {width height step : Int64} {encoding : Bytes}
    {format : PixelFormat} (geometry : Geometry p width height step encoding format)
    (depth size quantum pixels : Int64) :
    Geometry (describe p depth size quantum pixels) width height step encoding format where
  has_width := (get?_describe ..).trans geometry.has_width
  has_height := (get?_describe ..).trans geometry.has_height
  has_step := (get?_describe ..).trans geometry.has_step
  has_encoding := (get?_describe ..).trans geometry.has_encoding
  little := fun big => geometry.little ((get?_describe ..).symm.trans big)
  translates := geometry.translates
  row_fits := geometry.row_fits
  size_fits := geometry.size_fits

theorem Geometry.derived {p : Properties} {width height step : Int64} {encoding : Bytes}
    {format : PixelFormat} (geometry : Geometry p width height step encoding format) :
    Derived p (measured p width height step format) width height step format where
  others name other := by
    have differs (key : String) (member : key ∈ names) : name ≠ key :=
      fun same => other (same ▸ member)
    rw [measured, get?_describe, if_neg (differs _ (by decide)), if_neg (differs _ (by decide)),
      if_neg (differs _ (by decide)), if_neg (differs _ (by decide))]
  depth := by
    have small := geometry.translates.depth_le
    exact ⟨_, get?_describe .., toInt_of_fits ⟨by omega, by omega⟩⟩
  size := ⟨_, get?_describe .., toInt_of_fits geometry.size_fits⟩
  quantum := ⟨_, toInt_of_fits geometry.row_fits, get?_describe ..⟩
  pixels := by
    have lower := (Vocab.pack format.name).toInt32.le_toInt
    have upper := (Vocab.pack format.name).toInt32.toInt_lt
    exact ⟨_, get?_describe ..,
      toInt_of_fits ⟨by rw [Word.toInt]; omega, by rw [Word.toInt]; omega⟩⟩

theorem tdiv_between {sum alignment : Int} (up : 0 ≤ sum) (positive : 0 < alignment) :
    0 ≤ sum.tdiv alignment ∧ sum.tdiv alignment ≤ sum.tdiv alignment * alignment ∧
      sum.tdiv alignment * alignment ≤ sum := by
  have quotient : 0 ≤ sum.tdiv alignment := Int.tdiv_nonneg up (Int.le_of_lt positive)
  have rest := Int.tmod_nonneg alignment up
  have parts := Int.tmod_add_tdiv_mul sum alignment
  have grows : sum.tdiv alignment * 1 ≤ sum.tdiv alignment * alignment :=
    Int.mul_le_mul_of_nonneg_left positive quotient
  exact ⟨quotient, by omega, by omega⟩

/-- Both the quotient and the multiple lie between nothing and the sum. -/
theorem fits_tdiv {sum alignment : Int} (fits : Fits sum) (positive : 0 < alignment) :
    Fits (sum.tdiv alignment) ∧ Fits (sum.tdiv alignment * alignment) := by
  obtain ⟨lower, upper⟩ := fits
  rcases Int.le_total 0 sum with up | down
  · have between := tdiv_between up positive
    constructor <;> constructor <;> omega
  · have between := tdiv_between (Int.neg_nonneg_of_nonpos down) positive
    rw [Int.neg_tdiv, Int.neg_mul] at between
    constructor <;> constructor <;> omega

end Image

namespace Task

open Image

variable {σ : Type}

/-- The properties of an image whose rows are padded. -/
def padded : Properties :=
  ⟨[("width", .int 5), ("height", .int 2), ("step", .int 16),
    ("encoding", .bytes (Utf8.encode "rgb8"))]⟩

end Task

end TagWire
