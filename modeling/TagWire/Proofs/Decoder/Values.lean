import TagWire.Codec
import TagWire.Proofs.Decoder.Streaming
import TagWire.Proofs.Tagged.Truncation

/-!
# Values from a decoder

Where the stream of a decoder ends without an error, the value that is read from it is the one that
its bytes are the message of.

- `Decoder.readValue_spec`: what is read from a decoder by the bytes that it holds.
- `Decoder.readValue_failed`: no value is read from a decoder whose pass fails.
- `Decoder.readValue_iff`: a value is read just where its pass delivers one whole message.
- `Decoder.readValue_ok`: a value is read just where the bytes drained are one.
- `Layout.read_iff`: bytes that are read as a value, by a pass over them.
-/

namespace TagWire.Decoder

open Tagged (readMessage)

variable {σ : Type} [ByteStream σ] {supply : Supply σ} {final : Ledger} {bytes : Bytes}
  {d : Decoder σ}

/-- A decoder is finished by working off what it holds, which has to be nothing. -/
theorem finish_spec (holds : d.Holds supply (.ok ()) final bytes) :
    ∃ d', supply.Holds final.wire d'.source ∧
      d.finish = (if bytes.length = 0 then .ok ()
        else .error
          (.parse "twiddled stream" (toString bytes.length ++ " bytes left after the message")),
            d') := by
  obtain ⟨alive, _, l, later, tracks, passed, final_eq, rfl⟩ := holds
  have hands := Task.sends_runAll d.agenda d.channel l tracks
  rw [passed] at hands
  generalize run : (Task.runAll d.agenda).run d.channel = answer at hands
  cases hands with
  | @ok sent c _ delivered tracks' =>
    obtain rfl : later = sent := List.append_cancel_left (final_eq.symm.trans delivered)
    refine ⟨{ d with channel := c, agenda := [], staged := [] }, tracks'.holds, ?_⟩
    rw [finish, alive]
    dsimp only
    rw [run, List.length_append]
    dsimp only
    split <;> rfl

/-- What is read from a decoder is what its bytes are the message of, if they are one
whole message. -/
theorem readValue_spec (holds : d.Holds supply (.ok ()) final bytes) :
    match readMessage.run bytes with
    | (.ok v, []) => ∃ d', d.readValue = (.ok v, d') ∧ supply.Holds final.wire d'.source
    | _ => ∃ e d', d.readValue = (.error e, d') := by
  have ends : Matches (supply.decoder (.ok ()) final) (readMessage.run d) (readMessage.run bytes) :=
    Tagged.uniform_readMessage d bytes holds
  rw [readValue]
  generalize (readMessage : Reading (Decoder σ) Value).run d = answer,
    readMessage.run bytes = answer' at ends
  cases ends with
  | @fault e d' rest own holds' =>
    dsimp only
    rw [holds'.alive]
    exact ⟨e, d', rfl⟩
  | @short context missing d' rest spent =>
    have alive : d'.failed = none := spent.1
    dsimp only
    rw [alive]
    exact ⟨_, d', rfl⟩
  | @ok v d' rest holds' =>
    obtain ⟨d'', source, finished⟩ := finish_spec holds'
    dsimp only
    rw [holds'.alive]
    dsimp only
    rw [finished]
    cases rest with
    | nil => exact ⟨d'', rfl, source⟩
    | cons b rest => exact ⟨_, d'', rfl⟩

/-- A decoder whose pass fails cannot be finished. -/
theorem finish_failed {e : Error} (holds : d.Holds supply (.error e) final bytes) :
    ∃ d', d.finish = (.error e, d') := by
  obtain ⟨alive, _, l, later, tracks, passed, _, _⟩ := holds
  have hands := Task.sends_runAll d.agenda d.channel l tracks
  rw [passed] at hands
  generalize run : (Task.runAll d.agenda).run d.channel = answer at hands
  cases hands with
  | @error _ c _ parted =>
    rw [finish, alive]
    dsimp only
    rw [run]
    exact ⟨_, rfl⟩

/-- No value is read from a decoder whose pass fails. Unless the bytes before the failure are at
fault, the failure is the error. -/
theorem readValue_failed {e : Error} (holds : d.Holds supply (.error e) final bytes) :
    ∃ e' d', d.readValue = (.error e', d') ∧
      ((readMessage.run bytes).1.isOk ∨ Tagged.Exhausts readMessage bytes → e' = e) := by
  have ends : Matches (supply.decoder (.error e) final) (readMessage.run d)
      (readMessage.run bytes) := Tagged.uniform_readMessage d bytes holds
  rw [readValue, Tagged.Exhausts]
  generalize (readMessage : Reading (Decoder σ) Value).run d = answer,
    readMessage.run bytes = answer' at ends
  cases ends with
  | @fault e' d' rest own holds' =>
    dsimp only
    rw [holds'.alive]
    refine ⟨e', d', rfl, ?_⟩
    rintro (ok | ⟨context, missing, ended⟩)
    · cases ok
    · cases ended
      exact absurd rfl (own context missing)
  | @short context missing d' rest spent =>
    have failed : d'.failed = some e := spent.1
    dsimp only
    rw [failed]
    exact ⟨e, d', rfl, fun _ => rfl⟩
  | @ok v d' rest holds' =>
    obtain ⟨d'', finished⟩ := finish_failed holds'
    dsimp only
    rw [holds'.alive]
    dsimp only
    rw [finished]
    exact ⟨e, d'', rfl, fun _ => rfl⟩

section
variable {layout : Layout} {source : Source} {properties : Properties} {sizes : List Nat} {v : Value}

/-- A value is read from a decoder just where its pass comes to its end and delivers the message of
the value. -/
theorem readValue_iff (sound : layout.Sound) (answers : source.Answers) :
    (seeded layout source properties).readValue.1 = .ok v ↔
      ∃ final, layout.decodeOnce source.contents properties = (.ok (), final) ∧
        readMessage.run final.delivered = (.ok v, []) := by
  have started := holds_source sound answers properties
  generalize layout.decodeOnce source.contents properties = once at started
  obtain ⟨e | _, final⟩ := once
  · obtain ⟨e', d', failed, -⟩ := readValue_failed started
    rw [failed]
    constructor <;> nofun
  · have spec := readValue_spec started
    generalize message : (readMessage : Reading Bytes Value).run final.delivered = answer at spec
    refine ⟨fun read => ⟨final, rfl, ?_⟩, ?_⟩
    · split at spec
      · obtain ⟨d', given, -⟩ := spec
        rw [given] at read
        cases read
        exact message
      · obtain ⟨e', d', failed⟩ := spec
        rw [failed] at read
        cases read
    · rintro ⟨final', same, read⟩
      cases same
      rw [← message, read] at spec
      obtain ⟨d', given, -⟩ := spec
      rw [given]

/-- A value is read from a decoder just where the bytes drained from it are one whole message. -/
theorem readValue_ok (sound : layout.Sound) (answers : source.Answers)
    (positive : ∀ n ∈ sizes, 0 < n)
    (ended : ((seeded layout source properties).drain sizes).outcome = some (.ok ())) (v : Value) :
    (seeded layout source properties).readValue.1 = .ok v ↔
      readMessage.run ((seeded layout source properties).drain sizes).bytes = (.ok v, []) := by
  obtain ⟨final, once, bytes_eq, _⟩ := drain_ok sound answers positive ended
  rw [readValue_iff sound answers, once, bytes_eq]
  constructor
  · rintro ⟨_, ⟨⟩, read⟩
    exact read
  · exact fun read => ⟨final, rfl, read⟩

end

end TagWire.Decoder

namespace TagWire.Layout

open Tagged (readMessage)

variable {σ : Type} [ByteStream σ] {supply : Supply σ} {layout : Layout}

/-- A decoder that is started over a stream holds what a pass makes of the bytes of the stream. -/
theorem holds_started (sound : layout.Sound) {wire : Bytes} {s : σ} (holds : supply.Holds wire s)
    {verdict : Except Error Unit} {final : Ledger}
    (once : layout.decodeOnce ⟨wire, supply.failure, []⟩ {} = (verdict, final)) :
    (Decoder.start layout s).Holds supply verdict final final.delivered := by
  have started : (Decoder.seeded layout s {}).Holds supply
      (layout.decodeOnce ⟨wire, supply.failure, []⟩ {}).1
      (layout.decodeOnce ⟨wire, supply.failure, []⟩ {}).2
      (layout.decodeOnce ⟨wire, supply.failure, []⟩ {}).2.delivered :=
    Decoder.holds_seeded sound holds {}
  rwa [once] at started

/-- Bytes are read as a value just where a pass uses them up and makes the message of the value from
them. -/
theorem read_iff (sound : layout.Sound) {w : Bytes} {v : Value} :
    layout.read w = .ok v ↔
      ∃ final, layout.decodeOnce ⟨w, none, []⟩ {} = (.ok (), final) ∧ final.wire = [] ∧
        readMessage.run final.delivered = (.ok v, []) := by
  have source : Supply.ofBytes.Holds w w := rfl
  rw [Layout.read, readFrom]
  constructor
  · intro read
    generalize once : layout.decodeOnce ⟨w, none, []⟩ {} = answer
    obtain ⟨e | _, final⟩ := answer
    · obtain ⟨e', d', failed, -⟩ := Decoder.readValue_failed (holds_started sound source once)
      rw [failed] at read
      cases read
    · have spec := Decoder.readValue_spec (holds_started sound source once)
      generalize message : (readMessage : Reading Bytes Value).run final.delivered = answer at spec
      split at spec
      · obtain ⟨d', given, left⟩ := spec
        have left_eq : d'.source = final.wire := left
        rw [given] at read
        dsimp only at read
        rw [left_eq] at read
        cases used_up : final.wire with
        | nil =>
          rw [used_up] at read
          cases read
          exact ⟨final, rfl, used_up, message⟩
        | cons b rest =>
          rw [used_up] at read
          cases read
      · obtain ⟨e', d', failed⟩ := spec
        rw [failed] at read
        cases read
  · rintro ⟨final, once, used_up, message⟩
    have spec := Decoder.readValue_spec (holds_started sound source once)
    rw [message] at spec
    obtain ⟨d', given, left⟩ := spec
    have left_eq : d'.source = final.wire := left
    rw [given]
    dsimp only
    rw [left_eq, used_up]

end TagWire.Layout
