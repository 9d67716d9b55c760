import TagWire.Proofs.Decoder.Delimiting
import TagWire.Proofs.Decoder.Values
import TagWire.Proofs.Tagged.Contribution

/-!
# Messages mark their own end

No length stands in front of an external message, and none is needed: a reader takes the bytes of
the message and not one more, and with fewer it is exhausted.

- `Layout.readFrom_whole`, `Layout.readFrom_torn`: a message with bytes behind it, and a part of it.
- `Layout.readFrom_delimits`: messages of compiled layouts, from every source.
-/

namespace TagWire.Layout

open Tagged (readMessage)

variable {σ : Type} [ByteStream σ] {supply : Supply σ} {layout : Layout} {w : Bytes} {v : Value}

/-- What is lacking is told alike for the bytes that a stream holds and for the stream. -/
theorem shortage_eq (supply : Supply σ) (wire after : Bytes) (origin : String) (missing : Nat) :
    Contents.shortage ⟨wire, supply.failure, after⟩ origin missing =
      supply.shortage origin missing := by
  rw [Contents.shortage_eq_getD, Supply.shortage_eq_getD]

section
variable (sound : layout.Sound) (read : layout.read w = .ok v)
include sound read

/-- A message is read from every stream that begins with it, and what is behind it is left. -/
theorem readFrom_whole {r : Bytes} {s : σ} (holds : supply.Holds (w ++ r) s) :
    ∃ s', layout.readFrom s = (.ok v, s') ∧ supply.Holds r s' := by
  obtain ⟨final, once, used_up, message⟩ := (read_iff sound).mp read
  have longer := (decodeOnce_delimited once used_up).1 ⟨w ++ r, supply.failure, []⟩ r rfl
  have spec := Decoder.readValue_spec (holds_started sound holds longer)
  have delivered : (final.withContents ⟨r, supply.failure, []⟩).delivered = final.delivered := rfl
  rw [delivered, message] at spec
  obtain ⟨d', given, left⟩ := spec
  refine ⟨d'.source, ?_, left⟩
  rw [readFrom, given]

/-- A stream that ends within a message falls short, even where the bytes that are there make the
whole tagged message. -/
theorem readFrom_torn {p : Bytes} (within : p <+: w) (strict : p ≠ w) {s : σ}
    (holds : supply.Holds p s) :
    ∃ context missing s', layout.readFrom s = (.error (supply.shortage context missing), s') := by
  obtain ⟨final, once, used_up, message⟩ := (read_iff sound).mp read
  obtain ⟨origin, missing, l, ended, kept⟩ :=
    (decodeOnce_delimited once used_up).2 ⟨p, supply.failure, []⟩ within strict
  obtain ⟨e, d', given, same⟩ := Decoder.readValue_failed (holds_started sound holds ended)
  have not_at_fault : (readMessage.run l.delivered).1.isOk ∨
      Tagged.Exhausts readMessage l.delivered := by
    by_cases all : l.delivered = final.delivered
    · left
      rw [all, message]
      rfl
    · right
      obtain ⟨later, split⟩ := kept
      obtain ⟨taken, taken_eq, takes⟩ := Tagged.thorough_readMessage _ v [] message
      rw [List.append_nil] at taken_eq
      apply takes.short (taken_eq.symm.trans split.symm)
      rintro rfl
      exact all ((List.append_nil _).symm.trans split)
  obtain rfl := same not_at_fault
  refine ⟨origin, missing, d'.source, ?_⟩
  rw [readFrom, given, shortage_eq]

end

/-- Bytes that are read as a value are read as that value from every source that begins with them,
in whatever pieces they arrive and whatever is behind them, and exactly the bytes behind them are
left. Where less than all of them is there, the reader is exhausted, or meets the failure of the
source. -/
theorem readFrom_delimits {grammar : String} {layouts : List Layout}
    (compiled : compileSections grammar = .ok layouts) (member : layout ∈ layouts)
    (read : layout.read w = .ok v) :
    (∀ (source : Source) (r : Bytes) (failure : Option ReadError) (after : Bytes), source.Answers →
      source.contents = ⟨w ++ r, failure, after⟩ →
      ∃ source', layout.readFrom source = (.ok v, source') ∧
        source'.contents = ⟨r, failure, after⟩) ∧
    ∀ p, p <+: w → p ≠ w →
      (∃ context missing, layout.read p = .error (.exhausted context missing)) ∧
      (∀ source : Source, source.Answers → source.contents = ⟨p, none, []⟩ →
        ∃ context missing source',
          layout.readFrom source = (.error (.exhausted context missing), source')) ∧
      ∀ (source : Source) (e : ReadError) (after : Bytes), source.Answers →
        source.contents = ⟨p, some e, after⟩ →
        ∃ context source', layout.readFrom source = (.error (e.toError context), source') := by
  have sound := compileSections_sound compiled member
  refine ⟨?_, fun p within strict => ⟨?_, ?_, ?_⟩⟩
  · intro source r failure after answers contents
    have holds : (Supply.ofSource failure after).Holds (w ++ r) source := ⟨answers, contents⟩
    obtain ⟨source', given, -, left⟩ := readFrom_whole sound read holds
    exact ⟨source', given, left⟩
  · have holds : Supply.ofBytes.Holds p p := rfl
    obtain ⟨context, missing, rest, given⟩ := readFrom_torn sound read within strict holds
    refine ⟨context, missing, ?_⟩
    rw [Layout.read, given]
    rfl
  · intro source answers contents
    have holds : (Supply.ofSource none []).Holds p source := ⟨answers, contents⟩
    exact readFrom_torn sound read within strict holds
  · intro source e after answers contents
    have holds : (Supply.ofSource (some e) after).Holds p source := ⟨answers, contents⟩
    obtain ⟨context, missing, source', given⟩ := readFrom_torn sound read within strict holds
    exact ⟨context, source', given⟩

/-- A text, and behind it an integer that the tagged message does not have. -/
def labelled : Layout where
  gaps :=
    [⟨[256, 1, 4], .data ⟨.fixed 1, .string, .identity, .exchanged, "string *"⟩⟩,
      ⟨[], .data ⟨.fixed 1, .int16, .identity, .skipped, "skip int16 *"⟩⟩]
  grammar := "string * skip int16 *"

theorem compileSections_labelled : compileSections "string * skip int16 *" = .ok [labelled] :=
  @compileSections_single _
    [⟨"", "string", 0⟩, ⟨" ", "*", 7⟩, ⟨" ", "skip", 9⟩, ⟨" ", "int16", 14⟩, ⟨" ", "*", 20⟩]
    [.data [4] ⟨.fixed 1, .string, .identity, .exchanged, "string *"⟩,
      .data [] ⟨.fixed 1, .int16, .identity, .skipped, "skip int16 *"⟩] rfl rfl

/-- One byte at a time with another message behind it; and without its last byte, which is no part
of the tagged message. -/
theorem readFrom_labelled :
    compileSections "string * skip int16 *" = .ok [labelled] ∧
      labelled.read [2, 0, 0, 0, 104, 105, 7, 0] = .ok (.list [.string [104, 105]]) ∧
      (∃ source', labelled.readFrom (⟨[.bytes [2, 0, 0, 0, 104], .interruption,
          .bytes [105, 7, 0, 1, 0], .failure .other "torn"], some 1⟩ : Source) =
            (.ok (.list [.string [104, 105]]), source') ∧
          source'.contents = ⟨[1, 0], some (.device .other "torn"), []⟩) ∧
      ∃ context missing,
        labelled.read [2, 0, 0, 0, 104, 105, 7] = .error (.exhausted context missing) := by
  have sound := compileSections_sound compileSections_labelled (List.mem_singleton.mpr rfl)
  have once : labelled.decodeOnce ⟨[2, 0, 0, 0, 104, 105, 7, 0], none, []⟩ {} =
      (.ok (), ⟨[0, 1, 0, 0, 1, 0, 0, 0, 4, 0, 0, 0, 2, 0, 0, 0, 104, 105], ⟨[], none, []⟩, {}⟩) :=
    Prod.ext (by rfl) (by rfl)
  have text : Tagged.Primitive .string [2, 0, 0, 0, 104, 105] (.string [104, 105]) :=
    @Tagged.Primitive.text .string [104, 105] 2 rfl rfl
  have item : Tagged.Item (Tagged.Body 128) 0 [4, 0, 0, 0, 2, 0, 0, 0, 104, 105]
      (.string [104, 105]) := by
    rw [Tagged.Item, if_pos rfl]
    exact ⟨Word.ofKind .string, [2, 0, 0, 0, 104, 105], rfl, .of_primitive text⟩
  have message : Tagged.Message [0, 1, 0, 0, 1, 0, 0, 0, 4, 0, 0, 0, 2, 0, 0, 0, 104, 105]
      (.list [.string [104, 105]]) :=
    ⟨Word.ofList none, [1, 0, 0, 0, 4, 0, 0, 0, 2, 0, 0, 0, 104, 105], rfl, rfl, 1, _,
      [4, 0, 0, 0, 2, 0, 0, 0, 104, 105], rfl, rfl, rfl, .cons item .nil⟩
  have read : labelled.read [2, 0, 0, 0, 104, 105, 7, 0] = .ok (.list [.string [104, 105]]) :=
    (read_iff sound).mpr ⟨_, once, rfl, Tagged.decode_message message⟩
  obtain ⟨whole, torn⟩ :=
    readFrom_delimits compileSections_labelled (List.mem_singleton.mpr rfl) read
  exact ⟨compileSections_labelled, read,
    whole _ [1, 0] (some (.device .other "torn")) [] (by simp [Source.Answers]) rfl,
    (torn [2, 0, 0, 0, 104, 105, 7] (by decide) (by decide)).1⟩

end TagWire.Layout
