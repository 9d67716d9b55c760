import Mathlib.Control.Monad.Basic
import TagWire.Codec
import TagWire.Proofs.Codec.Returning
import TagWire.Proofs.Decoder.Messages
import TagWire.Proofs.Encoder.Simulation

/-!
# Reading what was written

A message that is written under a layout without directives is read back as it was, but for the
precision that its narrowed floats lose.

- `Layout.narrowed`: a message when it comes back.
- `Layout.message_returned`: what a walk puts out for a message, a pass makes into a message again.
- `Layout.read_write`: whole messages.
-/

namespace TagWire

open Tagged (Message encodeBody)

namespace Layout

open TagWire.Field (allItemsOnly allPlain allNarrowed)

/-- A message of a section when it comes back from outside. -/
def narrowed (tokens : List Token) (fields : List Field) (v : Value) : Value :=
  if isWrapped tokens then (Field.group false (wrapping tokens fields) fields).narrowed v
  else (fields.head?.map fun f => f.narrowed v).getD v

variable {tokens : List Token} {fields : List Field}

theorem wrapped_returned (wrapped : isWrapped tokens = true)
    (declared : ∀ f ∈ fields, f.Declared none) (plain : allPlain fields = true)
    (items : allItemsOnly fields = true) (shallow : Field.allDepth fields ≤ 128) {l : Layout}
    {origin : String} {vs : List Value} {body : Bytes}
    (encoded : encodeBody (.list vs) = .ok body) {t t' : Tape}
    (place : t.rest = (Value.list vs).word.toBytes ++ body)
    (run : (do
      Strict.checkWords origin (wrapping tokens fields)
      Strict.fields l fields : Strict Unit).run t = .ok ((), t')) :
    ∃ wire sent, t'.output = t.output ++ wire ∧ (Pass.fields fields).Turns wire sent () ∧
      Message ((wrapping tokens fields).flatMap Word.toBytes ++ sent)
        (.list (allNarrowed fields vs)) := by
  have all := Field.countP_of_plain plain
  obtain ⟨_, t₁, headed, run⟩ := Strict.bind_ok run
  rw [wrapping, if_pos wrapped] at headed
  obtain ⟨_, bytes, ⟨⟩, count, inner, _, rest_eq, output, settled⟩ :=
    Strict.head_walked (by omega) encoded (place.trans (List.append_nil _).symm) headed
  rw [List.append_nil] at rest_eq
  obtain ⟨length, wire, sent, output', turns, contribute⟩ :=
    Field.fields_return_all declared plain items shallow (by omega) inner settled rest_eq run
  refine ⟨wire, sent, by rw [output', output], turns, ?_⟩
  obtain ⟨series, told⟩ := series_of_wrapped declared contribute
  rw [wrapping_of_wrapped wrapped, List.append_assoc]
  refine message_of_series ?_ series
  rw [told, Nat.min_eq_left (by omega)]
  exact Word.length_ofTag (by omega)

theorem root_returned (declared : ∀ f ∈ fields, f.Declared none) (plain : allPlain fields = true)
    (items : allItemsOnly fields = true) (shallow : Field.allDepth fields ≤ Tagged.maxDepth)
    (single : fields.countP Field.isVisible ≤ 1) {l : Layout} {vs : List Value} {body : Bytes}
    (encoded : encodeBody (.list vs) = .ok body) {t t' : Tape} (settled : t.deferred = none)
    (place : t.rest = (Value.list vs).word.toBytes ++ body)
    (run : (Strict.fields l fields).run t = .ok ((), t')) (ended : t'.rest = []) :
    ∃ f wire sent, fields = [f] ∧ t'.output = t.output ++ wire ∧
      (Pass.fields fields).Turns wire sent () ∧
      Message sent (f.narrowed (.list vs)) := by
  rw [Field.countP_of_plain plain] at single
  cases fields with
  | nil =>
    cases run
    have some_left := congrArg List.length (place.symm.trans ended)
    rw [List.length_append, Word.length_toBytes, List.length_nil] at some_left
    omega
  | cons f rest =>
    obtain rfl : rest = [] := List.length_eq_zero_iff.mp (by simpa using single)
    have f_declared := declared f List.mem_cons_self
    have f_plain := Field.allPlain_iff.mp plain f List.mem_cons_self
    have not_item := f_declared.not_item (Field.isVisible_of_plain f_plain)
    have returns : f.Returns l Tagged.maxDepth none := Field.returns f_declared f_plain
      (Field.allItemsOnly_iff.mp items f List.mem_cons_self)
        (Field.allDepth_le.mp shallow f List.mem_cons_self)
    have place' :
        t.rest = (if f.isItem then [] else (Value.list vs).word.toBytes) ++ body ++ [] := by
      rw [place, not_item, List.append_nil]
      rfl
    rw [Strict.fields, Strict.fields, Strict.bind_unit] at run
    obtain ⟨wire, sent, _, _, output, turns, contributes⟩ :=
      returns encoded (by simp [not_item]) settled place' run
    refine ⟨f, wire, sent, rfl, output, ?_, ?_⟩
    · rwa [Pass.fields, Pass.fields, Pass.bind_unit]
    · obtain ⟨vs', narrowed_eq⟩ := f.narrowed_list vs
      rw [narrowed_eq] at contributes ⊢
      cases contributes with
      | item _ _ shared => cases shared
      | own _ _ _ announced => exact announced.message

/-- What is put out for a message of a section is made into a message again. -/
theorem message_returned (declared : ∀ f ∈ fields, f.Declared none)
    (plain : allPlain fields = true) (items : allItemsOnly fields = true)
    (shallow : nesting tokens fields ≤ Tagged.maxDepth)
    (single : isWrapped tokens = false → fields.countP Field.isVisible ≤ 1) {v : Value}
    {message wire : Bytes} (encoded : Tagged.encode v = .ok message)
    (written : (ofFields tokens fields).encodeOnce message = .ok wire) :
    ∃ sent, (Pass.gaps (ofFields tokens fields).gaps).Turns wire sent () ∧
      Message sent (narrowed tokens fields v) := by
  obtain ⟨vs, body, rfl, inner, rfl⟩ := Tagged.encode_ok encoded
  obtain ⟨t, run, ended, rfl⟩ := encodeOnce_ok written
  unfold narrowed
  unfold nesting at shallow
  change (Strict.passGaps (ofFields tokens fields)
    (Field.layOut (wrapping tokens fields) fields)).run _ = _ at run
  change ∃ sent, (Pass.gaps (Field.layOut (wrapping tokens fields) fields)).Turns t.output sent () ∧
    _
  rw [Pass.layOut_fields declared plain]
  cases wrapped : isWrapped tokens with
  | true =>
    rw [wrapped] at shallow
    have heads : Word.Heads (wrapping tokens fields) := by
      rw [wrapping, if_pos wrapped]
      exact .cons none _ .nil
    obtain ⟨wire, sent, output, turns, message⟩ := wrapped_returned wrapped declared plain items
      (Nat.le_of_succ_le_succ shallow) inner rfl
        ((Strict.layOut_agrees declared plain heads "" _ _ _).mp run)
    rw [show t.output = wire from output]
    exact ⟨_, turns.behind _, message⟩
  | false =>
    rw [wrapped] at shallow
    have unwrapped : wrapping tokens fields = [] :=
      if_neg (by rw [wrapped]; exact Bool.false_ne_true)
    rw [unwrapped] at run ⊢
    obtain ⟨f, wire, sent, rfl, output, turns, message⟩ :=
      root_returned declared plain items shallow (single wrapped) inner rfl rfl
      ((Strict.layOut_agrees declared plain .nil "" _ _ _).mp run) ended
    rw [show t.output = wire from output]
    exact ⟨_, turns.behind _, message⟩

/-- A value is written by a strict walk over its encoded form. -/
theorem write_eq (l : Layout) (v : Value) : l.write v = Tagged.encode v >>= l.encodeOnce := by
  unfold write Tagged.Outbox.write
  cases Tagged.encode v with
  | error e => rfl
  | ok message =>
    let buffer := Tagged.Outbox.finish { payload := message }
    have payload : buffer.payload = message := Tagged.flatten_cut 65536 message
    have answer := (Encoder.start l buffer).answer_encodeOnce
    dsimp only [Encoder.start] at answer
    rw [payload] at answer
    exact answer

theorem write_ok {l : Layout} {v : Value} {wire : Bytes} (written : l.write v = .ok wire) :
    ∃ message, Tagged.encode v = .ok message ∧ l.encodeOnce message = .ok wire := by
  rw [write_eq] at written
  cases encoded : Tagged.encode v with
  | error e =>
    rw [encoded] at written
    cases written
  | ok message =>
    rw [encoded] at written
    exact ⟨message, rfl, written⟩

/-- Bytes that a pass turns into a message are read as that message. -/
theorem read_turned {l : Layout} (sound : l.Sound) {wire sent : Bytes} {v : Value}
    (turns : (Pass.gaps l.gaps).Turns wire sent ()) (message : Message sent v) :
    l.read wire = .ok v := by
  obtain ⟨final, run, left, delivered⟩ :=
    turns { contents := ⟨wire, none, []⟩ } [] (List.append_nil wire).symm
  have sent_eq : final.delivered = sent := delivered
  refine (read_iff sound).mpr ⟨final, run, left, ?_⟩
  rw [sent_eq]
  exact Tagged.decode_message message

/-- A value that is written under a layout without directives is read back as it was, with the
floats narrowed that are float32 outside. -/
theorem read_write {grammar : String} {layouts : List Layout}
    (compiled : compileSections grammar = .ok layouts) {tokens : List Token} {layout : Layout}
    (paired : (tokens, layout) ∈ (Token.sections (Token.scan grammar)).zip layouts)
    (free : ∀ t ∈ tokens, t.isDirective = false)
    (items : allItemsOnly (readFields tokens).1 = true)
    (shallow : nesting tokens (readFields tokens).1 ≤ Tagged.maxDepth) {v : Value} {wire : Bytes}
    (written : layout.write v = .ok wire) :
    layout.read wire = .ok (narrowed tokens (readFields tokens).1 v) := by
  obtain ⟨member, made, silent⟩ := compileSections_paired compiled paired
  have sound := compileSections_sound compiled member
  obtain ⟨reads, single⟩ := readFields_reads silent
  have plain : allPlain (readFields tokens).1 = true :=
    Field.allPlain_iff.mpr (reads.plain free rfl)
  obtain ⟨message, encoded, walked⟩ := write_ok written
  rw [made] at walked
  obtain ⟨sent, turns, message⟩ :=
    message_returned reads.declared plain items shallow single encoded walked
  rw [← made] at turns
  exact read_turned sound turns message

/-- A list of a number that is narrower outside, of wider ones and of texts. -/
def report : Layout where
  gaps :=
    [⟨[256, 3, 10], .data ⟨.fixed 1, .float64, .narrow, .exchanged, "float64:4 *"⟩⟩,
      ⟨[320], .data ⟨.fromWire, .int16, .pad 4 true, .exchanged, "vector int16:4 *"⟩⟩,
      ⟨[260], .data ⟨.fromWire, .string, .identity, .exchanged, "vector string *"⟩⟩]
  grammar := "list 3 float64:4 * vector int16:4 * vector string *"

def reportTokens : List Token :=
  [⟨"", "list", 0⟩, ⟨" ", "3", 5⟩, ⟨" ", "float64:4", 7⟩, ⟨" ", "*", 17⟩, ⟨" ", "vector", 19⟩,
    ⟨" ", "int16:4", 26⟩,
    ⟨" ", "*", 34⟩, ⟨" ", "vector", 36⟩, ⟨" ", "string", 43⟩, ⟨" ", "*", 50⟩]

def reportFields : List Field :=
  [.group false [256, 3]
    [.data [10] ⟨.fixed 1, .float64, .narrow, .exchanged, "float64:4 *"⟩,
      .data [320] ⟨.fromWire, .int16, .pad 4 true, .exchanged, "vector int16:4 *"⟩,
      .data [260] ⟨.fromWire, .string, .identity, .exchanged, "vector string *"⟩]]

theorem readFields_report : readFields reportTokens = (reportFields, []) := rfl

theorem compileSections_report :
    compileSections "list 3 float64:4 * vector int16:4 * vector string *" = .ok [report] :=
  @compileSections_single _ reportTokens reportFields rfl rfl

/-- One tenth comes back as the float32 closest to it; the empty list of texts is sent without their
kind. -/
theorem read_report :
    compileSections "list 3 float64:4 * vector int16:4 * vector string *" = .ok [report] ∧
      (reportTokens, report) ∈
        (Token.sections (Token.scan "list 3 float64:4 * vector int16:4 * vector string *")).zip
          [report] ∧
      (∀ t ∈ reportTokens, t.isDirective = false) ∧ allItemsOnly (readFields reportTokens).1 =
        true ∧
      nesting reportTokens (readFields reportTokens).1 ≤ Tagged.maxDepth ∧
      report.write (.list [.float64 0x3fb999999999999a, .list [.int16 (-2)], .list []]) =
        .ok [0xcd, 0xcc, 0xcc, 0x3d, 1, 0, 0, 0, 0xfe, 0xff, 0xff, 0xff, 0, 0, 0, 0] ∧
      report.read [0xcd, 0xcc, 0xcc, 0x3d, 1, 0, 0, 0, 0xfe, 0xff, 0xff, 0xff, 0, 0, 0, 0] =
        .ok (.list [.float64 0x3fb99999a0000000, .list [.int16 (-2)], .list []]) := by
  have paired : (reportTokens, report) ∈
      (Token.sections (Token.scan "list 3 float64:4 * vector int16:4 * vector string *")).zip
        [report] :=
    List.mem_singleton.mpr rfl
  have free : ∀ t ∈ reportTokens, t.isDirective = false := by decide
  have items : allItemsOnly (readFields reportTokens).1 = true := by
    rw [readFields_report]
    rfl
  have shallow : nesting reportTokens (readFields reportTokens).1 ≤ Tagged.maxDepth := by
    rw [readFields_report]
    decide
  have encoded : Tagged.encode
    (.list [.float64 0x3fb999999999999a, .list [.int16 (-2)], .list []]) =
      .ok [0, 1, 0, 0, 3, 0, 0, 0, 10, 0, 0, 0, 0x9a, 0x99, 0x99, 0x99, 0x99, 0x99, 0xb9, 0x3f, 64,
        1, 0, 0, 1, 0, 0, 0,
        0xfe, 0xff, 0, 1, 0, 0, 0, 0, 0, 0] := by rfl
  have written : report.write (.list [.float64 0x3fb999999999999a, .list [.int16 (-2)], .list []]) =
      .ok [0xcd, 0xcc, 0xcc, 0x3d, 1, 0, 0, 0, 0xfe, 0xff, 0xff, 0xff, 0, 0, 0, 0] := by
    rw [write_eq, encoded]
    decide +kernel
  have read := read_write compileSections_report paired free items shallow written
  have narrowed_eq : narrowed reportTokens (readFields reportTokens).1
      (.list [.float64 0x3fb999999999999a, .list [.int16 (-2)], .list []]) =
        .list [.float64 0x3fb99999a0000000, .list [.int16 (-2)], .list []] := by
    rw [readFields_report]
    rfl
  rw [narrowed_eq] at read
  exact ⟨compileSections_report, paired, free, items, shallow, written, read⟩

end Layout

end TagWire
