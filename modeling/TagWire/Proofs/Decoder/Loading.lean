import TagWire.Proofs.Decoder.Messages
import TagWire.Proofs.Tagged.RoundTrip

/-!
# Loaded data

What is loaded is found in the value that is read from a decoder, in the place of its field.

- `Layout.places`: the data of a section, with its values in the value that is read.
- `Layout.places_met`: a pass that delivers a message meets the data of the section in there.
- `Decoder.loaded_value`: what is loaded is the lowest bytes of the number that was to be loaded.
-/

namespace TagWire

/-- Whether a number has a two's complement form of a width. -/
def Bytes.Holds (width : Nat) (i : Int) : Prop :=
  -(card width : Int) ≤ i * 2 ∧ i * 2 < card width

/-- The lowest bytes of a number stand for it just where it fits them. -/
theorem Bytes.bmod_card {width : Nat} {i : Int} : i.bmod (card width) = i ↔ Holds width i := by
  have positive := card_pos width
  refine ⟨fun same => ?_, fun ⟨lower, upper⟩ => Int.bmod_eq_of_le_mul_two lower upper⟩
  have above := @Int.le_bmod i _ positive
  have below := @Int.bmod_lt i _ positive
  rw [same] at above below
  constructor <;> omega

/-- The number that the bytes of an integer or a vocab stand for. -/
theorem Value.asInt_ofPayload {kind : Kind} (integer : kind.isInteger = true) {size : Nat}
    (known : kind.size? = some size) {bytes : Bytes} (length : bytes.length = size) :
    (ofPayload kind bytes).asInt = some (Bytes.toInt bytes) := by
  have range : (Bytes.toInt bytes).bmod (Bytes.card size) = Bytes.toInt bytes := by
    rw [← length]
    exact Int.bmod_bmod
  cases kind with
  | int8 | int16 | int32 | int64 =>
    cases known
    simp only [ofPayload, asInt, Int8.toInt_ofInt, Int16.toInt_ofInt, Int32.toInt_ofInt,
      Int64.toInt_ofInt]
    exact congrArg some range
  | vocab =>
    cases known
    have signed : (Word.ofBytes bytes).toInt = (Bytes.toNat bytes : Int).bmod (Bytes.card 4) :=
      BitVec.toInt_ofNat' ..
    rw [ofPayload, asInt, signed, Bytes.toInt, length]
  | float32 | float64 | string | blob => cases integer

/-- What stands in the place of data that is loaded is the number that was to be loaded, cut off to
the width of the data: the same number, if that is wide enough. -/
def Loaded (station : Payload × Properties) (place : Payload × Value) : Prop :=
  station.1 = place.1 ∧ ∀ name literal, station.1.use = .loaded name literal →
    ∃ (size : Nat) (i : Int64), station.1.kind.size? = some size ∧
      (literal <|> station.2.int? name) = some i ∧
      place.2.asInt = some (i.toInt.bmod (Bytes.card size)) ∧
      (place.2.asInt = some i.toInt ↔ Bytes.Holds size i.toInt)

theorem Meets.loaded {station : Payload × Properties} {place : Payload × Value}
    (meets : Meets station place) (sound : station.1.Sound) : Loaded station place := by
  obtain ⟨same, loads⟩ := meets
  refine ⟨same, fun name literal use => ?_⟩
  obtain ⟨i, given, value⟩ := loads name literal use
  obtain ⟨integer, -, -⟩ := sound.loaded (by rw [use]; rfl)
  obtain ⟨size, known⟩ := Kind.size_of_isInteger integer
  have number : place.2.asInt = some (i.toInt.bmod (Bytes.card size)) := by
    rw [value, known, Option.getD_some,
      Value.asInt_ofPayload integer known (Bytes.length_ofInt size i.toInt), Bytes.toInt_ofInt]
  refine ⟨size, i, known, given, number, ?_⟩
  rw [number, Option.some_inj, Bytes.bmod_card]

namespace Layout

open Tagged (readMessage)

/-- The data of a section, with its values in the value that is read: the items of a section that is
a list of its own, and otherwise the one list in it. -/
def places (tokens : List Token) (v : Value) : List (Payload × Value) :=
  Field.allPlaced (readFields tokens).1 (if isWrapped tokens then v.items?.getD [] else [v])

/-- A pass that delivers a message meets the data of the section where it is in there. -/
theorem places_met {tokens : List Token} (silent : (readFields tokens).2 = [])
    (items : Field.allItemsOnly (readFields tokens).1 = true) {l l' : Ledger}
    (run : (Pass.gaps (ofFields tokens (readFields tokens).1).gaps).run l = (.ok (), l'))
    (nothing : l.delivered = []) {v : Value} (read : readMessage.run l'.delivered = (.ok v, [])) :
    List.Forall₂ Meets (Pass.reached (ofFields tokens (readFields tokens).1).gaps l)
      (places tokens v) := by
  obtain ⟨reads, single⟩ := readFields_reads silent
  have declared : ∀ f ∈ (readFields tokens).1, f.Declared none := reads.declared
  unfold places
  generalize (readFields tokens).1 = fields at *
  obtain ⟨sent, vs, contribute, delivered, met⟩ :=
    Field.layOut_contribute declared items (Nat.le_refl _) _ run
  rw [delivered, nothing, List.nil_append] at read
  cases wrapped : isWrapped tokens with
  | true =>
    obtain ⟨rfl, -⟩ := items_of_wrapped wrapped declared contribute read
    exact met
  | false =>
    have unwrapped : wrapping tokens fields = [] :=
      if_neg (by rw [wrapped]; exact Bool.false_ne_true)
    rw [unwrapped, List.flatMap_nil, List.nil_append] at read
    obtain ⟨rfl, -⟩ := root_of_unwrapped declared (single wrapped) contribute read
    exact met

end Layout

namespace Pass

theorem reached_shown {gs : List Gap} {l : Ledger} {station : Payload × Properties}
    (member : station ∈ reached gs l) : ∃ g ∈ gs, g.payload? = some station.1 := by
  induction gs generalizing l with
  | nil => cases member
  | cons g rest ih =>
    rcases List.mem_append.mp member with first | behind
    · obtain ⟨p, shown, rfl⟩ := Option.map_eq_some_iff.mp (Option.mem_toList.mp first)
      exact ⟨g, List.mem_cons_self, (Option.filter_eq_some_iff.mp shown).1⟩
    · obtain ⟨g', further, data⟩ := ih behind
      exact ⟨g', List.mem_cons_of_mem _ further, data⟩

end Pass

namespace Decoder

open Layout (Token compileSections isWrapped readFields)
/-- Where a value is read from a decoder, the data that is loaded is found in it, each in its place,
as the integer of the grammar or the one that stood under its name when the decoder came to it. Only
its lowest bytes are there, and the value is read though the integer does not fit them. Item vectors
have to hold only items. -/
theorem loaded_value {grammar : String} {layouts : List Layout}
    (compiled : compileSections grammar = .ok layouts) {tokens : List Token} {layout : Layout}
    (paired : (tokens, layout) ∈ (Token.sections (Token.scan grammar)).zip layouts)
    (items : Field.allItemsOnly (readFields tokens).1 = true) {properties : Properties}
    {source : Source} (answers : source.Answers) {v : Value}
    (read : (seeded layout source properties).readValue.1 = .ok v) :
    List.Forall₂ Loaded (Pass.reached layout.gaps ⟨[], source.contents, properties⟩)
      (Layout.places tokens v) := by
  obtain ⟨member, made, silent⟩ := Layout.compileSections_paired compiled paired
  have sound := Layout.compileSections_sound compiled member
  obtain ⟨final, once, message⟩ := (readValue_iff sound answers).mp read
  rw [made] at once
  have met := Layout.places_met silent items once rfl message
  rw [← made] at met
  obtain ⟨length, each⟩ := List.forall₂_iff_zip.mp met
  refine List.forall₂_iff_zip.mpr ⟨length, fun {station place} pair => ?_⟩
  obtain ⟨g, gap_member, data⟩ := Pass.reached_shown (List.of_mem_zip pair).1
  exact (each pair).loaded (sound g gap_member _ data)

/-- A number that does not fit its field, and one that is saved before it is loaded. -/
def crowded : Layout :=
  ⟨[⟨[256, 2, 32], .data ⟨.fixed 1, .int8, .identity, .loaded "=300" (some 300), "<=300 int8 *"⟩⟩,
    ⟨[], .data ⟨.fixed 1, .int8, .identity, .saved "n", ">n int8 *"⟩⟩,
    ⟨[64], .data ⟨.fixed 1, .int16, .identity, .loaded "n" none, "<n int16 *"⟩⟩],
    "<=300 int8 * >n int8 * <n int16 *"⟩

def crowdedTokens : List Token :=
  [⟨"", "<=300", 0⟩, ⟨" ", "int8", 6⟩, ⟨" ", "*", 11⟩, ⟨" ", ">n", 13⟩, ⟨" ", "int8", 16⟩,
    ⟨" ", "*", 21⟩, ⟨" ", "<n", 23⟩, ⟨" ", "int16", 26⟩, ⟨" ", "*", 32⟩]

def crowdedFields : List Field :=
  [.data [32] ⟨.fixed 1, .int8, .identity, .loaded "=300" (some 300), "<=300 int8 *"⟩,
    .data [] ⟨.fixed 1, .int8, .identity, .saved "n", ">n int8 *"⟩,
    .data [64] ⟨.fixed 1, .int16, .identity, .loaded "n" none, "<n int16 *"⟩]

theorem readFields_crowded : readFields crowdedTokens = (crowdedFields, []) := rfl

theorem compileSections_crowded :
    compileSections "<=300 int8 * >n int8 * <n int16 *" = .ok [crowded] :=
  @Layout.compileSections_single _ crowdedTokens crowdedFields rfl rfl

def crowdedSource : Source := ⟨[.bytes [200]], none⟩

/-- What does not fit is cut off, and what is saved is loaded with its sign. -/
theorem loaded_crowded :
    compileSections "<=300 int8 * >n int8 * <n int16 *" = .ok [crowded] ∧
      (crowdedTokens, crowded) ∈
        (Token.sections (Token.scan "<=300 int8 * >n int8 * <n int16 *")).zip [crowded] ∧
      Field.allItemsOnly (readFields crowdedTokens).1 = true ∧ crowdedSource.Answers ∧
      (seeded crowded crowdedSource {}).readValue.1 = .ok (.list [.int8 44, .int16 (-56)]) ∧
      List.Forall₂ Loaded (Pass.reached crowded.gaps ⟨[], crowdedSource.contents, {}⟩)
        (Layout.places crowdedTokens (.list [.int8 44, .int16 (-56)])) := by
  have answers : crowdedSource.Answers := by simp [crowdedSource, Source.Answers]
  have paired : (crowdedTokens, crowded) ∈
      (Token.sections (Token.scan "<=300 int8 * >n int8 * <n int16 *")).zip [crowded] :=
    List.mem_singleton.mpr rfl
  have items : Field.allItemsOnly (readFields crowdedTokens).1 = true := by
    rw [readFields_crowded]
    rfl
  have sound := Layout.compileSections_sound compileSections_crowded (List.mem_singleton.mpr rfl)
  have once : crowded.decodeOnce crowdedSource.contents {} =
      (.ok (), ⟨[0, 1, 0, 0, 2, 0, 0, 0, 32, 0, 0, 0, 44, 64, 0, 0, 0, 200, 255], ⟨[], none, []⟩,
        ⟨[("n", .int (-56))]⟩⟩) := Prod.ext (by rfl) (by rfl)
  have encoded : Tagged.encode (.list [.int8 44, .int16 (-56)]) =
      .ok [0, 1, 0, 0, 2, 0, 0, 0, 32, 0, 0, 0, 44, 64, 0, 0, 0, 200, 255] := by rfl
  have message := Tagged.message_of_encode (by decide) encoded
  have read : (seeded crowded crowdedSource {}).readValue.1 =
      .ok (.list [.int8 44, .int16 (-56)]) :=
    (readValue_iff sound answers).mpr ⟨_, once, Tagged.decode_message message⟩
  exact ⟨compileSections_crowded, paired, items, answers, read,
    loaded_value compileSections_crowded paired items answers read⟩

end Decoder

end TagWire
