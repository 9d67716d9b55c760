import TagWire.Proofs.Codec.Restoring
import TagWire.Proofs.Codec.Reversal
import TagWire.Proofs.Codec.RoundTrip
import TagWire.Proofs.Layout.Closing

/-!
# Writing what was read

A value that was read under a layout without directives is written as the bytes that it was read
from, if a list of primitives of one kind is declared as such a list.

- `Layout.message_restored`: the message of the value is put out as what a pass has delivered.
- `Layout.write_read`: whole messages.
-/

namespace TagWire

open Strict (Puts)
open Tagged (Entry Listed Message Primitive encode encodeItems innerWord innerWord_of_exactWord
  outerWord_of_innerWord readMessage)

namespace Field

theorem shown_data (words : List Word) {p : Payload} (exchanged : p.use = .exchanged)
    (waiting : List Word) : ∀ g ∈ (gaps waiting (.data words p)).1, g.isHidden = false := by
  rw [gaps, exchanged, if_neg (by decide)]
  rintro g (_ | ⟨_, ⟨⟩⟩)
  change p.use.isHidden = false
  rw [exchanged]
  rfl

/-- Nothing of a field without directives is left out of the message. -/
theorem shown_gaps {item : Option Kind} {f : Field} (declared : f.Declared item)
    (plain : f.isPlain = true) (waiting : List Word) :
    ∀ g ∈ (f.gaps waiting).1, g.isHidden = false := by
  induction declared generalizing waiting with
  | derive => cases plain
  | hidden | item | scalar => exact shown_data _ (of_decide_eq_true plain) waiting
  | vector _ exchanged => exact shown_data _ exchanged waiting
  | hiddenGroup => cases plain
  | group _ _ ih =>
    have inner_plain := allPlain_iff.mp plain
    exact forall_allGaps (fun f member => ih f member (inner_plain f member)) _

theorem shown_layOut {item : Option Kind} {fields : List Field}
    (declared : ∀ f ∈ fields, f.Declared item) (plain : allPlain fields = true)
    (waiting : List Word) : ∀ g ∈ layOut waiting fields, g.isHidden = false := by
  apply forall_layOut
  · intro words
    rfl
  · intro f member
    exact shown_gaps (declared f member) (allPlain_iff.mp plain f member)

end Field

/-- Where no gap is hidden, all bytes of the spans are put out again. -/
theorem Pass.exchanged_spans {gaps : List Gap} (shown : ∀ g ∈ gaps, g.isHidden = false)
    (l : Ledger) : (spans gaps l).flatMap Span.exchanged = (spans gaps l).flatMap Span.bytes := by
  have all_shown : ∀ s ∈ spans gaps l, s.exchanged = s.bytes := by
    intro s member
    have gap_member : s.gap ∈ (spans gaps l).map Span.gap := List.mem_map_of_mem member
    rw [spans_gaps] at gap_member
    rw [Span.exchanged, shown s.gap gap_member]
    rfl
  exact List.flatMap_congr all_shown

/-- A list that is encoded as an item is a message. -/
theorem Tagged.encode_of_item {vs : List Value} {bytes : Bytes}
    (encoded : encodeItems false [.list vs] = .ok bytes) : encode (.list vs) = .ok bytes := by
  obtain ⟨body, others, inner, ⟨⟩, rfl⟩ := encodeItems_cons encoded
  rw [encode, inner, List.append_nil]
  rfl

namespace Layout

open TagWire.Field (allItemsOnly allMixed allPlain)

variable {tokens : List Token} {fields : List Field}

section
variable {l : Layout} {sent bytes wire : Bytes} {vs : List Value} {v : Value}
  (declared : ∀ f ∈ fields, f.Declared none) {depth : Nat}
  (contribute : Field.AllContribute depth none fields sent vs)
  (encoded : encodeItems false vs = .ok bytes)
  (puts : Puts (Strict.fields l fields) sent wire ())
  (puts_encoded : Puts (Strict.fields l fields) bytes wire ())
  (read : readMessage.run ((wrapping tokens fields).flatMap Word.toBytes ++ sent) = (.ok v, []))
include declared contribute encoded puts puts_encoded read

/-- A section that is a list of its own, by what its fields have delivered. -/
theorem wrapped_restored (wrapped : isWrapped tokens = true)
    (kinds : vs.map Value.kind? = fields.map Field.kind?) (apart : Field.shared fields = none) :
    ∃ message, encode v = .ok message ∧
      Puts (do Strict.checkWords "" (wrapping tokens fields); Strict.fields l fields)
        ((wrapping tokens fields).flatMap Word.toBytes ++ sent) wire () ∧
      Puts (do Strict.checkWords "" (wrapping tokens fields); Strict.fields l fields) message
        wire () := by
  obtain ⟨rfl, bound⟩ := items_of_wrapped wrapped declared contribute read
  obtain ⟨-, length⟩ := series_of_wrapped declared contribute
  have alike : Value.shared vs = none := (Field.shared_of_kinds kinds).trans apart
  have told : (Word.ofTag (fields.countP Field.isVisible)).length? = some vs.length := by
    rw [length]
    exact Word.length_ofTag bound
  have body := Tagged.encodeBody_of_items (.inl alike) told encoded
  have head : Puts (Strict.checkWords ""
      [Word.ofList none, Word.ofTag (fields.countP Field.isVisible)])
        ((Word.ofList none).toBytes ++ (Word.ofTag (fields.countP Field.isVisible)).toBytes)
          [] () :=
    Strict.puts_head (.inl rfl) "" bound
  have front := wrapping_of_wrapped wrapped fields
  rw [wrapping, if_pos wrapped, Nat.min_eq_left (by omega)] at front ⊢
  rw [front]
  refine ⟨_, ?_, head.bind (q := fun _ => Strict.fields l fields) puts,
    head.bind (q := fun _ => Strict.fields l fields) puts_encoded⟩
  rw [encode, body, Value.word, alike]
  exact congrArg Except.ok (List.append_assoc ..).symm

/-- A section that is no list of its own, by what its one field has delivered. -/
theorem root_restored (unwrapped : wrapping tokens fields = [])
    (single : fields.countP Field.isVisible ≤ 1) :
    ∃ message, encode v = .ok message ∧
      Puts (do Strict.checkWords "" (wrapping tokens fields); Strict.fields l fields)
        ((wrapping tokens fields).flatMap Word.toBytes ++ sent) wire () ∧
      Puts (do Strict.checkWords "" (wrapping tokens fields); Strict.fields l fields) message
        wire () := by
  rw [unwrapped] at read ⊢
  obtain ⟨rfl, -⟩ := root_of_unwrapped declared single contribute read
  obtain ⟨_, -, _, _, -, -, _, vs, _, rfl, -⟩ := Tagged.certifies_readMessage _ v [] read
  exact ⟨bytes, Tagged.encode_of_item encoded, puts, puts_encoded⟩

end

/-- The message of a value is put out as what a pass has delivered that is read as the value. -/
theorem message_restored (declared : ∀ f ∈ fields, f.Declared none) (plain : allPlain fields = true)
    (items : allItemsOnly fields = true) (mixed : allMixed fields = true)
    (apart : isWrapped tokens = true → Field.shared fields = none)
    (single : isWrapped tokens = false → fields.countP Field.isVisible ≤ 1) {l₁ l₂ : Ledger}
    (started : l₁.delivered = [])
    (run : (Pass.gaps (ofFields tokens fields).gaps).run l₁ = (.ok (), l₂)) {v : Value}
    (read : readMessage.run l₂.delivered = (.ok v, [])) :
    ∃ message wire, encode v = .ok message ∧
      Puts (Strict.passGaps (ofFields tokens fields) (ofFields tokens fields).gaps) l₂.delivered
        wire () ∧
      Puts (Strict.passGaps (ofFields tokens fields) (ofFields tokens fields).gaps) message
        wire () := by
  generalize layout_eq : ofFields tokens fields = l at run ⊢
  have gaps_eq : l.gaps = Field.layOut (wrapping tokens fields) fields := by
    rw [← layout_eq]
    rfl
  rw [gaps_eq] at run ⊢
  rw [Pass.layOut_fields declared plain] at run
  obtain ⟨_, l', deliver, run⟩ := Pass.bind_ok run
  have front := (Pass.deliver_moves deliver).delivered
  rw [started, List.nil_append] at front
  have restores : ∀ f ∈ fields, f.Restores l (Field.allDepth fields) none := by
    intro f member
    exact Field.restores (declared f member) (Field.allPlain_iff.mp plain f member)
      (Field.allItemsOnly_iff.mp items f member) (Field.allMixed_iff.mp mixed f member)
      (Field.allDepth_le.mp (Nat.le_refl _) f member)
  have own_tags : ∀ f ∈ fields, f.isItem = (none : Option Kind).isSome := by
    intro f member
    exact (declared f member).not_item
      (Field.isVisible_of_plain (Field.allPlain_iff.mp plain f member))
  obtain ⟨sent, vs, bytes, wire, delivered, contribute, kinds, encoded, puts, puts_encoded⟩ :=
    Field.fields_restore restores own_tags run
  rw [front] at delivered
  rw [delivered] at read ⊢
  obtain ⟨message, encoded, walked, walked_encoded⟩ : ∃ message, encode v = .ok message ∧
      Puts (do Strict.checkWords "" (wrapping tokens fields); Strict.fields l fields)
        ((wrapping tokens fields).flatMap Word.toBytes ++ sent) wire () ∧
      Puts (do Strict.checkWords "" (wrapping tokens fields); Strict.fields l fields) message
        wire () := by
    cases wrapped : isWrapped tokens with
    | true =>
      exact wrapped_restored declared contribute encoded puts puts_encoded read wrapped kinds
        (apart wrapped)
    | false =>
      have unwrapped : wrapping tokens fields = [] :=
        if_neg (by rw [wrapped]; exact Bool.false_ne_true)
      exact root_restored declared contribute encoded puts puts_encoded read unwrapped
        (single wrapped)
  have agree := @Strict.layOut_agrees l none fields declared plain _
    (heads_wrapping tokens fields) ""
  exact ⟨message, wire, encoded, walked.of_agree agree, walked_encoded.of_agree agree⟩

/-- Bytes that are read as a value under a layout without directives are what the value is written
as. Item vectors have to hold only items, and no list, nor a section that is one, may hold
primitives of one kind and nothing else, for those are written as vectors. Floats that are wider in
the value than outside have to be numbers. -/
theorem write_read {grammar : String} {layouts : List Layout}
    (compiled : compileSections grammar = .ok layouts) {tokens : List Token} {layout : Layout}
    (paired : (tokens, layout) ∈ (Token.sections (Token.scan grammar)).zip layouts)
    (free : ∀ t ∈ tokens, t.isDirective = false)
    (items : allItemsOnly (readFields tokens).1 = true)
    (mixed : allMixed (readFields tokens).1 = true)
    (apart : isWrapped tokens = true → Field.shared (readFields tokens).1 = none) {w : Bytes}
    (numbers : ∀ s ∈ layout.spans ⟨w, none, []⟩ {}, ∀ bits ∈ s.numbers, Binary.IsNumber bits)
    {v : Value} (read : layout.read w = .ok v) : layout.write v = .ok w := by
  obtain ⟨member, made, silent⟩ := compileSections_paired compiled paired
  have sound := compileSections_sound compiled member
  obtain ⟨reads, single⟩ := readFields_reads silent
  have plain : allPlain (readFields tokens).1 = true :=
    Field.allPlain_iff.mpr (reads.plain free rfl)
  have shown : ∀ g ∈ layout.gaps, g.isHidden = false := by
    rw [made]
    exact Field.shown_layOut reads.declared plain (wrapping tokens (readFields tokens).1)
  obtain ⟨final, once, used_up, decoded⟩ := (read_iff sound).mp read
  obtain ⟨sent, moves, undone⟩ := Pass.gaps_undone layout sound once
  have sent_eq : final.delivered = sent := moves.delivered
  have taken_eq : (layout.spans ⟨w, none, []⟩ {}).flatMap Span.exchanged = w := by
    have taken : w = (layout.spans ⟨w, none, []⟩ {}).flatMap Span.bytes ++ final.wire := moves.wire
    rw [used_up, List.append_nil] at taken
    exact (Pass.exchanged_spans shown _).trans taken.symm
  have undone' : Puts (Strict.passGaps layout layout.gaps) sent w () := taken_eq ▸ undone numbers
  obtain ⟨message, wire, encoded, puts, puts_encoded⟩ :
      ∃ message wire, encode v = .ok message ∧
        Puts (Strict.passGaps layout layout.gaps) final.delivered wire () ∧
        Puts (Strict.passGaps layout layout.gaps) message wire () := by
    rw [made] at once ⊢
    exact message_restored reads.declared plain items mixed apart single rfl once decoded
  obtain rfl : wire = w := by
    rw [sent_eq] at puts
    exact puts.out_eq undone'
  rw [write_eq, encoded]
  exact encodeOnce_of_puts puts_encoded

/-- A list of texts without items is told to be one, as in a message that a pass has made. -/
theorem message_report : Message [0, 1, 0, 0, 3, 0, 0, 0, 10, 0, 0, 0, 0, 0, 0, 0, 0, 0, 0xf8, 0x3f,
    64, 1, 0, 0, 1, 0, 0, 0, 0xfe, 0xff, 4, 1, 0, 0, 0, 0, 0, 0]
      (.list [.float64 0x3ff8000000000000, .list [.int16 (-2)], .list []]) := by
  have number : Primitive .float64 [0, 0, 0, 0, 0, 0, 0xf8, 0x3f] (.float64 0x3ff8000000000000) :=
    .fixed rfl rfl
  have integer : Primitive .int16 [0xfe, 0xff] (.int16 (-2)) := by
    have signed : Int16.ofInt (Bytes.toInt [0xfe, 0xff]) = -2 := by decide
    rw [← signed]
    exact .fixed rfl rfl
  have integers : Entry innerWord (Listed innerWord 128) none [64, 1, 0, 0, 1, 0, 0, 0, 0xfe, 0xff]
      (.list [.int16 (-2)]) :=
    @Entry.list _ _ (Word.ofList (some .int16)) (some .int16) [1, 0, 0, 0, 0xfe, 0xff]
      [.int16 (-2)] (innerWord_of_exactWord rfl)
      ⟨1, [0xfe, 0xff], rfl, rfl, .cons (Entry.bare integer) .nil⟩
  have texts : Entry innerWord (Listed innerWord 128) none [4, 1, 0, 0, 0, 0, 0, 0] (.list []) :=
    @Entry.list _ _ (Word.ofList (some .string)) (some .string) [0, 0, 0, 0] []
      (innerWord_of_exactWord rfl) ⟨0, [], rfl, rfl, .nil⟩
  exact Tagged.message_iff.mpr ⟨Word.ofList none, none, _, _, rfl,
    outerWord_of_innerWord (innerWord_of_exactWord rfl), rfl, 3, _, rfl, rfl,
    .cons (Entry.tagged number) (.cons integers (.cons texts .nil))⟩

/-- An empty list of texts is read as a list without items, which is written under the tag of any
list. -/
theorem write_report :
    compileSections "list 3 float64:4 * vector int16:4 * vector string *" = .ok [report] ∧
      (reportTokens, report) ∈
        (Token.sections (Token.scan "list 3 float64:4 * vector int16:4 * vector string *")).zip
          [report] ∧
      (∀ t ∈ reportTokens, t.isDirective = false) ∧
      allItemsOnly (readFields reportTokens).1 = true ∧
      allMixed (readFields reportTokens).1 = true ∧
      (isWrapped reportTokens = true → Field.shared (readFields reportTokens).1 = none) ∧
      (∀ s ∈ report.spans ⟨[0, 0, 0xc0, 0x3f, 1, 0, 0, 0, 0xfe, 0xff, 0xff, 0xff, 0, 0, 0, 0], none,
        []⟩ {}, ∀ bits ∈ s.numbers, Binary.IsNumber bits) ∧
      report.read [0, 0, 0xc0, 0x3f, 1, 0, 0, 0, 0xfe, 0xff, 0xff, 0xff, 0, 0, 0, 0] =
        .ok (.list [.float64 0x3ff8000000000000, .list [.int16 (-2)], .list []]) ∧
      report.write (.list [.float64 0x3ff8000000000000, .list [.int16 (-2)], .list []]) =
        .ok [0, 0, 0xc0, 0x3f, 1, 0, 0, 0, 0xfe, 0xff, 0xff, 0xff, 0, 0, 0, 0] := by
  have paired : (reportTokens, report) ∈
      (Token.sections (Token.scan "list 3 float64:4 * vector int16:4 * vector string *")).zip
        [report] :=
    List.mem_singleton.mpr rfl
  have free : ∀ t ∈ reportTokens, t.isDirective = false := by decide
  have items : allItemsOnly (readFields reportTokens).1 = true := by
    rw [readFields_report]
    rfl
  have mixed : allMixed (readFields reportTokens).1 = true := by
    rw [readFields_report]
    rfl
  have apart : isWrapped reportTokens = true → Field.shared (readFields reportTokens).1 = none := by
    rw [readFields_report]
    exact fun _ => rfl
  have numbers : ∀ s ∈ report.spans
      ⟨[0, 0, 0xc0, 0x3f, 1, 0, 0, 0, 0xfe, 0xff, 0xff, 0xff, 0, 0, 0, 0], none, []⟩ {},
      ∀ bits ∈ s.numbers, Binary.IsNumber bits := by
    have listed : (report.spans ⟨[0, 0, 0xc0, 0x3f, 1, 0, 0, 0, 0xfe, 0xff, 0xff, 0xff, 0, 0, 0, 0],
        none, []⟩ {}).flatMap Span.numbers = [0x3fc00000] := by
      rfl
    intro s member bits bits_member
    have bits_listed : bits ∈ [0x3fc00000] := listed ▸ List.mem_flatMap.mpr ⟨s, member, bits_member⟩
    rw [List.mem_singleton.mp bits_listed]
    decide
  have sound := compileSections_sound compileSections_report (List.mem_singleton.mpr rfl)
  have once : report.decodeOnce
      ⟨[0, 0, 0xc0, 0x3f, 1, 0, 0, 0, 0xfe, 0xff, 0xff, 0xff, 0, 0, 0, 0], none, []⟩ {} =
        (.ok (), ⟨[0, 1, 0, 0, 3, 0, 0, 0, 10, 0, 0, 0, 0, 0, 0, 0, 0, 0, 0xf8, 0x3f, 64, 1, 0, 0,
          1, 0, 0, 0, 0xfe, 0xff, 4, 1, 0, 0, 0, 0, 0, 0], ⟨[], none, []⟩, {}⟩) :=
    Prod.ext (by rfl) (by rfl)
  have read : report.read [0, 0, 0xc0, 0x3f, 1, 0, 0, 0, 0xfe, 0xff, 0xff, 0xff, 0, 0, 0, 0] =
      .ok (.list [.float64 0x3ff8000000000000, .list [.int16 (-2)], .list []]) :=
    (read_iff sound).mpr ⟨_, once, rfl, Tagged.decode_message message_report⟩
  exact ⟨compileSections_report, paired, free, items, mixed, apart, numbers, read,
    write_read compileSections_report paired free items mixed apart numbers read⟩

end Layout

end TagWire
