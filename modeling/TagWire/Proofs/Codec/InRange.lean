import TagWire.Proofs.Decoder.Ranged
import TagWire.Proofs.Encoder.Checked
import TagWire.Proofs.Layout.Cursors
import TagWire.Proofs.Layout.Tiling

/-!
# Layouts that can be gone by

A decoder and an encoder trust the layout they have: they cut out its template, buffers, blocks and
scratch bytes, and take sizes from each other, without a look at whether that can be done. For compiled
layouts it can, whatever a source holds and whatever a message is.

- `Layout.compileSections_inRange`: compiled layouts are regular, and nothing goes out of range.
-/

namespace TagWire.Layout

/-- A compiled layout is what two cursors make of its section, and it is regular: the tag words of its
gaps fill the template, and conversions and loaded data have sizes that fit. So nothing goes out of range
that is done with a decoder of the layout, in any order and over any stream that gives no more than it is
asked for, and no walk of an encoder over any message. The ranges that the encoder puts out lie inside its
blocks and its scratch bytes. -/
theorem compileSections_inRange {grammar : String} {layouts : List Layout}
    (compiled : compileSections grammar = .ok layouts) {l : Layout} (member : l ∈ layouts) :
    (∃ tokens ∈ Token.sections (Token.scan grammar),
      let cursor := Cursor.compile tokens (readFields tokens).1
      cursor.template = l.template ∧
        cursor.gaps = l.placed.map fun (g, place) => (g.content, place)) ∧
      l.Regular ∧
      (∀ {σ : Type} [ByteStream σ], ByteStream.Modest σ → ∀ (source : σ) (history : List Decoder.Op),
        (Decoder.start l source).performAll? history =
          some ((Decoder.start l source).performAll history)) ∧
      ∀ e : Encoder, e.layout = l → e.update? = some e.update ∧
        ∀ s ∈ e.update.segments, e.update.segmentBytes? s = some (e.update.segmentBytes s) := by
  have sound := compileSections_sound compiled member
  have regular := compileSections_regular compiled member
  obtain ⟨-, rfl⟩ := compileSections_ok.mp compiled
  obtain ⟨tokens, section_member, rfl⟩ := List.mem_map.mp member
  exact ⟨⟨tokens, section_member, Cursor.compile_placed tokens (readFields tokens).1⟩, regular,
    fun modest source history => Decoder.performAll?_start modest sound source history,
    fun e _ => Encoder.sure_update e⟩

/-- Data of every kind that has a size of its own: saved, loaded, filled up and narrowed. -/
def assorted : Layout where
  gaps :=
    [⟨[], .data ⟨.fixed 1, .int8, .identity, .saved "n", ">n int8 *"⟩⟩,
      ⟨[256, 3, 64], .data ⟨.fixed 1, .int16, .identity, .loaded "n" none, "<n int16 *"⟩⟩,
      ⟨[320], .data ⟨.fromWire, .int16, .pad 4 true, .exchanged, "vector int16:4 *"⟩⟩,
      ⟨[10], .data ⟨.fixed 1, .float64, .narrow, .exchanged, "float64:4 *"⟩⟩]
  grammar := "list 3 >n int8 * <n int16 * vector int16:4 * float64:4 *"

theorem compileSections_assorted :
    compileSections "list 3 >n int8 * <n int16 * vector int16:4 * float64:4 *" = .ok [assorted] :=
  @compileSections_single _
    [⟨"", "list", 0⟩, ⟨" ", "3", 5⟩, ⟨" ", ">n", 7⟩, ⟨" ", "int8", 10⟩, ⟨" ", "*", 15⟩,
      ⟨" ", "<n", 17⟩, ⟨" ", "int16", 20⟩, ⟨" ", "*", 26⟩, ⟨" ", "vector", 28⟩,
      ⟨" ", "int16:4", 35⟩, ⟨" ", "*", 43⟩, ⟨" ", "float64:4", 45⟩, ⟨" ", "*", 55⟩]
    [.group false [256, 3]
      [.data [] ⟨.fixed 1, .int8, .identity, .saved "n", ">n int8 *"⟩,
        .data [64] ⟨.fixed 1, .int16, .identity, .loaded "n" none, "<n int16 *"⟩,
        .data [320] ⟨.fromWire, .int16, .pad 4 true, .exchanged, "vector int16:4 *"⟩,
        .data [10] ⟨.fixed 1, .float64, .narrow, .exchanged, "float64:4 *"⟩]] rfl rfl

/-- A message of such data that arrives with an interruption, three bytes at a time, and ends early. -/
def assortedSource : Source :=
  ⟨[.bytes [200, 2, 0], .interruption, .bytes [0, 0, 7, 0, 0, 0, 0xfe, 0xff, 0xff]], some 3⟩

/-- The beginning of a message of such data, in small blocks. -/
def assortedBlocks : BlockBuffer :=
  ⟨[[9]], [[0, 1, 0], [], [0, 3, 0, 0, 0, 64, 0, 0, 0, 200], [0xff, 64, 1, 0, 0, 1, 0, 0, 0, 5]]⟩

theorem inRange_assorted :
    compileSections "list 3 >n int8 * <n int16 * vector int16:4 * float64:4 *" = .ok [assorted] ∧
      ByteStream.Modest Source ∧
      Tiles 0 [(0, 0), (0, 12), (12, 16), (16, 20)] 20 ∧
      ((Decoder.start assorted assortedSource).performAll?
        [.read 5, .put "n" (.int 1), .finish, .reset, .readValue]).isSome = true ∧
      (Encoder.start assorted assortedBlocks).update?.isSome = true := by
  obtain ⟨-, regular, decodes, encodes⟩ :=
    compileSections_inRange compileSections_assorted (List.mem_singleton.mpr rfl)
  have decoded := decodes Source.modest assortedSource
    [.read 5, .put "n" (.int 1), .finish, .reset, .readValue]
  obtain ⟨encoded, -⟩ := encodes (Encoder.start assorted assortedBlocks) rfl
  exact ⟨compileSections_assorted, Source.modest, regular.tiles, by rw [decoded]; rfl,
    by rw [encoded]; rfl⟩

end TagWire.Layout
