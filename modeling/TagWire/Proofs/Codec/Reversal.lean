import TagWire.Proofs.Codec.Undoing
import TagWire.Proofs.Decoder.Streaming

/-!
# Encoding what was decoded

The tagged bytes that a decoder has made of external bytes are made into these bytes again, but for
those of fields that are only outside.

- `Codec.update_drained`: an encoder over what was drained from a decoder.
-/

namespace TagWire

theorem Pass.spans_gaps (gaps : List Gap) (l : Ledger) : (spans gaps l).map Span.gap = gaps := by
  induction gaps generalizing l with
  | nil => rfl
  | cons g rest ih => rw [spans, List.map_cons, ih]

namespace Codec

open Decoder (seeded)
open Layout (compileSections)

/-- An encoder over any blocks that hold what was drained from a decoder puts out what the decoder
has read, without the bytes of fields that are only outside. Floats that were widened have to be
numbers. -/
theorem update_drained {grammar : String} {layouts : List Layout}
    (compiled : compileSections grammar = .ok layouts) {layout : Layout}
    (member : layout ∈ layouts) (properties : Properties) {source : Source}
    (answers : source.Answers) {sizes : List Nat} (positive : ∀ n ∈ sizes, 0 < n)
    (ended : ((seeded layout source properties).drain sizes).outcome = some (.ok ()))
    (numbers : ∀ s ∈ layout.spans source.contents properties, ∀ bits ∈ s.numbers,
      Binary.IsNumber bits)
    {buffer : BlockBuffer}
    (message : buffer.payload = ((seeded layout source properties).drain sizes).bytes) :
    let spans := layout.spans source.contents properties
    let left := ((seeded layout source properties).drain sizes).decoder.source.rest
    let e := (Encoder.start layout buffer).update
    spans.map Span.gap = layout.gaps ∧ source.rest = spans.flatMap Span.bytes ++ left ∧
      e.isOk = true ∧ e.output = spans.flatMap Span.exchanged := by
  intro spans left e
  have sound := Layout.compileSections_sound compiled member
  obtain ⟨final, once, message_eq, left_eq⟩ := Decoder.drain_ok sound answers positive ended
  obtain ⟨sent, moves, puts⟩ := Pass.gaps_undone layout sound once
  have sent_eq : final.delivered = sent := moves.delivered
  have encoded := Layout.encodeOnce_of_puts (puts numbers)
  have started : layout.encodeOnce buffer.payload = .ok (spans.flatMap Span.exchanged) := by
    rw [message, message_eq, sent_eq]
    exact encoded
  have spec : e.error = none ∧ e.output = spans.flatMap Span.exchanged := by
    have update := (Encoder.start layout buffer).update_encodeOnce
    dsimp only [Encoder.start] at update
    rw [started] at update
    exact update
  refine ⟨Pass.spans_gaps layout.gaps _, ?_, by rw [Encoder.isOk, spec.1]; rfl, spec.2⟩
  rw [show left = _ from left_eq, Source.rest, Source.contentsOf_rest, ← List.append_assoc]
  congr 1
  exact moves.wire

/-- A saved field, a narrowed one, a list of padded integers and a field that is loaded from the
saved one. -/
def measurement : Layout where
  gaps :=
    [⟨[], .data ⟨.fixed 1, .int8, .identity, .saved "n", ">n int8 *"⟩⟩,
      ⟨[256, 3, 10], .data ⟨.fixed 1, .float64, .narrow, .exchanged, "float64:4 *"⟩⟩,
      ⟨[320], .data ⟨.fromWire, .int16, .pad 4 true, .exchanged, "vector int16:4 *"⟩⟩,
      ⟨[1], .data ⟨.fixed 1, .int32, .identity, .loaded "n" none, "<n int32 *"⟩⟩]
  grammar := "list 3 >n int8 * float64:4 * vector int16:4 * <n int32 *"

def measured : Source :=
  ⟨[.bytes [0xfe, 0, 0, 0xc0], .interruption, .bytes [0x3f, 1, 0, 0, 0, 0xf9, 0xff, 0xff, 0xff]],
    some 3⟩

/-- The message of the measurement, in blocks behind a header. -/
def buffered : BlockBuffer where
  headers := [[0]]
  body :=
    [[0, 1, 0, 0, 3, 0, 0, 0, 10, 0, 0, 0, 0, 0, 0], [],
      [0, 0, 0, 248, 63, 64, 1, 0, 0, 1, 0, 0, 0, 249],
      [255, 1, 0, 0, 0, 254, 255, 255, 255]]

theorem compileSections_measurement :
    compileSections "list 3 >n int8 * float64:4 * vector int16:4 * <n int32 *" =
      .ok [measurement] :=
  @Layout.compileSections_single _
    [⟨"", "list", 0⟩, ⟨" ", "3", 5⟩, ⟨" ", ">n", 7⟩, ⟨" ", "int8", 10⟩, ⟨" ", "*", 15⟩,
      ⟨" ", "float64:4", 17⟩,
      ⟨" ", "*", 27⟩, ⟨" ", "vector", 29⟩, ⟨" ", "int16:4", 36⟩, ⟨" ", "*", 44⟩, ⟨" ", "<n", 46⟩,
        ⟨" ", "int32", 49⟩,
      ⟨" ", "*", 55⟩]
    [.group false [256, 3]
      [.data [] ⟨.fixed 1, .int8, .identity, .saved "n", ">n int8 *"⟩,
        .data [10] ⟨.fixed 1, .float64, .narrow, .exchanged, "float64:4 *"⟩,
        .data [320] ⟨.fromWire, .int16, .pad 4 true, .exchanged, "vector int16:4 *"⟩,
        .data [1] ⟨.fixed 1, .int32, .identity, .loaded "n" none, "<n int32 *"⟩]] rfl rfl

theorem update_measurement :
    compileSections "list 3 >n int8 * float64:4 * vector int16:4 * <n int32 *" = .ok [measurement] ∧
      measured.Answers ∧ (∀ n ∈ List.replicate 40 5, 0 < n) ∧
      ((seeded measurement measured {}).drain (List.replicate 40 5)).outcome = some (.ok ()) ∧
      (∀ s ∈ measurement.spans measured.contents {}, ∀ bits ∈ s.numbers, Binary.IsNumber bits) ∧
      buffered.payload = ((seeded measurement measured {}).drain (List.replicate 40 5)).bytes ∧
      (Encoder.start measurement buffered).update.isOk = true ∧
      (Encoder.start measurement buffered).update.output =
        [0, 0, 0xc0, 0x3f, 1, 0, 0, 0, 0xf9, 0xff, 0xff, 0xff] := by
  have answers : measured.Answers := by simp [measured, Source.Answers]
  have positive : ∀ n ∈ List.replicate 40 5, 0 < n := by decide
  have sound : measurement.Sound :=
    Layout.compileSections_sound compileSections_measurement (List.mem_singleton.mpr rfl)
  have once : measurement.decodeOnce measured.contents {} =
      (.ok (), ⟨buffered.payload, ⟨[], none, []⟩, ⟨[("n", .int (-2))]⟩⟩) :=
        Prod.ext (by rfl) (by rfl)
  have ended : ((seeded measurement measured {}).drain (List.replicate 40 5)).outcome =
      some (.ok ()) := by
    have enough := (@Decoder.drain_enough _ _ {} _ sound answers positive).2
    rw [once] at enough
    exact enough (by decide)
  have numbers : ∀ s ∈ measurement.spans measured.contents {}, ∀ bits ∈ s.numbers,
      Binary.IsNumber bits := by
    have listed : (measurement.spans measured.contents {}).flatMap Span.numbers = [0x3fc00000] := by
      rfl
    intro s member bits bits_member
    have bits_listed : bits ∈ [0x3fc00000] := listed ▸ List.mem_flatMap.mpr ⟨s, member, bits_member⟩
    rw [List.mem_singleton.mp bits_listed]
    decide
  have message : buffered.payload =
      ((seeded measurement measured {}).drain (List.replicate 40 5)).bytes := by
    obtain ⟨final, once', bytes_eq, _⟩ := Decoder.drain_ok sound answers positive ended
    rw [once] at once'
    rw [bytes_eq, ← (Prod.mk.inj once').2]
  have exchanged : (measurement.spans measured.contents {}).flatMap Span.exchanged =
      [0, 0, 0xc0, 0x3f, 1, 0, 0, 0, 0xf9, 0xff, 0xff, 0xff] := by rfl
  obtain ⟨_, _, ok, output⟩ :=
    update_drained compileSections_measurement (List.mem_singleton.mpr rfl) {} answers positive
      ended numbers message
  exact ⟨compileSections_measurement, answers, positive, ended, numbers, message, ok,
    output.trans exchanged⟩

end Codec

end TagWire
