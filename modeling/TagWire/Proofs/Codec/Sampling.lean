import TagWire.Proofs.Codec.Reversal
import TagWire.Proofs.Codec.RoundTrip
import TagWire.Proofs.Layout.Sampling

/-!
# Samples under their own grammars

A value is written and read under the grammar that is made from it. Nothing is converted on the way,
so its message is the tag words of the layout with the external bytes between them.

- `Pass.gaps_verbatim`: gaps whose data is the same in the message as outside.
- `Field.carries`: a value is put out by the field that fits it, and made again.
- `Layout.sample_fits`: whole messages.
-/

namespace TagWire

open Strict (Puts)
open Tagged (encode encodeBody encodeItems)
open Value (bySample sampleFields)

/-- Whether the data of a gap is the same in the message as outside, if it has any. -/
def Gap.Verbatim (g : Gap) : Prop :=
  g.content = .nothing ∨ ∃ p, g.content = .data p ∧ p.use = .exchanged ∧ p.conversion = .identity

namespace Pass

variable {l l' : Ledger}

theorem elements_verbatim {p : Payload} (identity : p.conversion = .identity) {n : Nat}
    (run : (elements p n).run l = (.ok (), l')) : ∃ bytes, Moves l l' bytes bytes := by
  unfold elements at run
  cases known : p.kind.size? with
  | some size =>
    rw [known, identity] at run
    obtain ⟨bytes, -, moves⟩ := forward_moves run
    exact ⟨bytes, moves⟩
  | none =>
    rw [known] at run
    obtain ⟨pieces, -, same, moves⟩ := repeated_moves (P := fun taken sent => taken = sent)
      (fun l l' read => by
        obtain ⟨w, bytes, -, moves⟩ := text_moves read
        exact ⟨_, _, rfl, moves⟩) run
    refine ⟨pieces.flatMap Prod.fst, ?_⟩
    rwa [← List.flatMap_congr same] at moves

theorem payload_verbatim {p : Payload} (exchanged : p.use = .exchanged)
    (identity : p.conversion = .identity) (run : (payload p).run l = (.ok (), l')) :
    ∃ bytes, Moves l l' bytes bytes := by
  rw [payload, exchanged] at run
  dsimp only at run
  cases count : p.count with
  | fixed n =>
    rw [count] at run
    exact elements_verbatim identity run
  | fromWire =>
    rw [count] at run
    obtain ⟨n, l₁, measured, run⟩ := bind_ok run
    obtain ⟨_, l₂, told, run⟩ := bind_ok run
    obtain ⟨w, length, moves⟩ := length_moves measured
    obtain ⟨bytes, moves'⟩ := elements_verbatim identity run
    have moved := moves.trans ((deliver_moves told).trans moves')
    rw [lengthBytes_eq length] at moved
    exact ⟨w.toBytes ++ bytes, moved⟩

theorem gap_verbatim {g : Gap} (verbatim : g.Verbatim) (run : (gap g).run l = (.ok (), l')) :
    ∃ bytes, Moves l l' bytes (g.template ++ bytes) := by
  obtain ⟨words, content⟩ := g
  rcases verbatim with nothing | ⟨p, data, exchanged, identity⟩
  · cases nothing
    refine ⟨[], ?_⟩
    rw [List.append_nil]
    exact deliver_moves run
  · cases data
    obtain ⟨_, l₁, delivered, run⟩ := bind_ok run
    obtain ⟨bytes, moves⟩ := payload_verbatim exchanged identity run
    exact ⟨bytes, (deliver_moves delivered).trans moves⟩

/-- The tag words of gaps are delivered with the bytes that are taken between them. -/
theorem gaps_verbatim {gaps : List Gap} (verbatim : ∀ g ∈ gaps, g.Verbatim)
    (run : (Pass.gaps gaps).run l = (.ok (), l')) :
    Moves l l' ((spans gaps l).flatMap Span.bytes)
      ((spans gaps l).flatMap fun s => s.gap.template ++ s.bytes) := by
  induction gaps generalizing l with
  | nil =>
    cases run
    exact .refl _
  | cons g rest ih =>
    obtain ⟨_, l₁, first, run⟩ := bind_ok run
    obtain ⟨bytes, moves⟩ := gap_verbatim (verbatim g List.mem_cons_self) first
    have further := ih (fun g member => verbatim g (List.mem_cons_of_mem _ member)) run
    have spans_eq : spans (g :: rest) l = ⟨g, bytes⟩ :: spans rest l₁ := by
      rw [spans, first, moves.taken_eq]
    rw [spans_eq]
    exact moves.trans further

end Pass

namespace Field

/-- Gaps that go through as they are, whatever words wait behind them. -/
def VerbatimGaps (f : Field) : Prop := ∀ waiting, ∀ g ∈ (f.gaps waiting).1, g.Verbatim

theorem verbatim_data (words : List Word) {p : Payload} (exchanged : p.use = .exchanged)
    (identity : p.conversion = .identity) : VerbatimGaps (.data words p) := by
  intro waiting
  rw [gaps, exchanged, if_neg (by decide)]
  rintro g (_ | ⟨_, ⟨⟩⟩)
  exact .inr ⟨p, rfl, exchanged, identity⟩

theorem mem_sampleFields {f : Field} {items : List Value} (member : f ∈ sampleFields items) :
    ∃ v ∈ items, v.sampleField = f := by
  induction items with
  | nil => cases member
  | cons v rest ih =>
    rcases List.mem_cons.mp member with rfl | behind
    · exact ⟨v, List.mem_cons_self, rfl⟩
    · obtain ⟨v, inside, rfl⟩ := ih behind
      exact ⟨v, List.mem_cons_of_mem _ inside, rfl⟩

theorem verbatim_sample (v : Value) : v.sampleField.VerbatimGaps := by
  induction v using bySample with
  | primitive v kind known =>
    rw [(Value.sample_of_kind known).2]
    exact verbatim_data _ rfl rfl
  | vector items kind known =>
    rw [(Value.sample_of_shared known).2]
    exact verbatim_data _ rfl rfl
  | items items none_shared ih =>
    rw [(Value.sample_of_own none_shared).2]
    have inside : ∀ f ∈ sampleFields items, f.VerbatimGaps := by
      intro f member
      obtain ⟨v, item, rfl⟩ := mem_sampleFields member
      exact ih v item
    exact fun waiting => forall_allGaps inside _

theorem isPlain_sample (v : Value) : v.sampleField.isPlain = true := by
  induction v using bySample with
  | primitive v kind known => rw [(Value.sample_of_kind known).2]; rfl
  | vector items kind known => rw [(Value.sample_of_shared known).2]; rfl
  | items items none_shared ih =>
    rw [(Value.sample_of_own none_shared).2]
    apply allPlain_iff.mpr
    intro f member
    obtain ⟨v, item, rfl⟩ := mem_sampleFields member
    exact ih v item

/-- Data as it is, of so many elements. -/
theorem sound_verbatim {n : Nat} (bound : n < 0x80000000) (kind : Kind) (origin : String) :
    Payload.Sound ⟨.fixed n, kind, .identity, .exchanged, origin⟩ where
  narrow := by simp
  pad := by simp
  loaded := by simp [Use.isLoaded]
  count := by
    rintro n ⟨rfl⟩
    exact bound

theorem narrowed_verbatim (n : Nat) (kind : Kind) (origin : String) :
    Payload.narrowed ⟨.fixed n, kind, .identity, .exchanged, origin⟩ = id :=
  funext (Payload.narrowed_eq (by simp))

variable {l : Layout}

/-- The field that fits a value puts out its encoded form, and makes it again. -/
def Carries (l : Layout) (v : Value) : Prop :=
  ∀ body, encodeBody v = .ok body → ∃ wire,
    Puts (Strict.field l v.sampleField) (v.word.toBytes ++ body) wire () ∧
    (Pass.field v.sampleField).Turns wire (v.word.toBytes ++ body) ()

theorem fields_carry {items : List Value} (each : ∀ v ∈ items, Carries l v) {bytes : Bytes}
    (encoded : encodeItems false items = .ok bytes) :
    ∃ wire, Puts (Strict.fields l (sampleFields items)) bytes wire () ∧
      (Pass.fields (sampleFields items)).Turns wire bytes () := by
  induction items generalizing bytes with
  | nil =>
    cases encoded
    exact ⟨[], .done (), .done ()⟩
  | cons v rest ih =>
    obtain ⟨body, others, first, further, rfl⟩ := Tagged.encodeItems_cons encoded
    obtain ⟨wire, puts, turns⟩ := each v List.mem_cons_self body first
    obtain ⟨wire', puts', turns'⟩ :=
      ih (fun v member => each v (List.mem_cons_of_mem _ member)) further
    exact ⟨wire ++ wire', puts.bind puts', turns.bind turns'⟩

theorem primitive_carries {v : Value} {kind : Kind} (known : v.kind? = some kind) : Carries l v := by
  intro body encoded
  rw [(Value.sample_of_kind known).2, Value.word_of_kind known, scalar]
  generalize origin_eq : " ".intercalate [kind.name, "*"] = origin
  have sound := sound_verbatim (by decide : 1 < 0x80000000) kind origin
  obtain ⟨wire, sent, puts, turns, primitive⟩ :=
    Codec.single_exchanged sound rfl rfl (l.originOf ⟨[Word.ofKind kind], .data _⟩)
      ⟨[Word.ofKind kind], .data _⟩ known encoded
  rw [narrowed_verbatim, id_eq] at primitive
  obtain rfl : body = sent := by
    have again := Tagged.encodeBody_of_primitive primitive
    rw [encoded] at again
    exact Except.ok.inj again
  refine ⟨wire, (Strict.puts_checkTag origin (Word.ofKind kind)).bind puts, ?_⟩
  have behind := turns.behind ([Word.ofKind kind].flatMap Word.toBytes)
  rwa [List.flatMap_singleton] at behind

section
variable {items : List Value}

/-- Items of one kind are carried together. -/
theorem vector_carries {kind : Kind} (known : Value.shared items = some kind)
    (bound : items.length < 0x80000000) : Carries l (.list items) := by
  intro body encoded
  rw [(Value.sample_of_shared known).2, Value.word, known, vector]
  generalize origin_eq : " ".intercalate ["vector", kind.name, toString items.length, "*"] =
    origin
  obtain ⟨w, bytes, told, inner, rfl⟩ := Tagged.encodeBody_list encoded
  rw [known] at inner
  have sound := sound_verbatim bound kind origin
  have counted : ∀ n, Count.fixed items.length = .fixed n → items.length = n := by
    intro n same
    exact Count.fixed.inj same
  obtain ⟨wire, sent, puts, turns, series⟩ :=
    vector_exchanged sound rfl l (Value.kinds_of_shared known) told counted inner
  rw [narrowed_verbatim, List.map_id] at series
  obtain rfl : bytes = sent := by
    have again := Tagged.encodeItems_of_series series
    rw [Option.isSome_some, again] at inner
    exact (Except.ok.inj inner).symm
  exact ⟨wire, puts _ (.inl rfl), turns⟩

/-- Items of several kinds are carried one after the other. -/
theorem list_carries (none_shared : Value.shared items = none) (bound : items.length < 0x80000000)
    (each : ∀ v ∈ items, Carries l v) : Carries l (.list items) := by
  intro body encoded
  rw [(Value.sample_of_own none_shared).2, Value.word, none_shared]
  obtain ⟨w, bytes, told, inner, rfl⟩ := Tagged.encodeBody_list encoded
  obtain rfl := Word.eq_ofTag told
  rw [none_shared] at inner
  obtain ⟨wire, puts, turns⟩ := fields_carry each inner
  refine ⟨wire, ?_, ?_⟩
  · have head : Puts (Strict.checkWords l.grammar [Word.ofList none, Word.ofTag items.length])
        ((Word.ofList none).toBytes ++ (Word.ofTag items.length).toBytes) [] () :=
      Strict.puts_head (.inl rfl) l.grammar bound
    have whole := head.bind (q := fun _ => Strict.fields l (sampleFields items)) puts
    rwa [List.append_assoc] at whole
  · rw [Pass.field]
    have behind := turns.behind
      ([Word.ofList none, Word.ofTag items.length].flatMap Word.toBytes)
    simpa using behind

end

/-- Every value that fits is carried, by induction on how its grammar is made. -/
theorem carries {v : Value} (fits : v.fits = true) : Carries l v := by
  induction v using bySample with
  | primitive v kind known => exact primitive_carries known
  | vector items kind known => exact vector_carries known (Value.fits_list.mp fits).1
  | items items none_shared ih =>
    obtain ⟨bound, each_fits⟩ := Value.fits_list.mp fits
    exact list_carries none_shared bound fun v member => ih v member (each_fits v member)

end Field

/-- A decoder over bytes that a pass turns into others delivers these. -/
theorem Decoder.drain_turned {layout : Layout} (sound : layout.Sound) {wire message : Bytes}
    (turns : (Pass.gaps layout.gaps).Turns wire message ()) {source : Source}
    (answers : source.Answers) {rest after : Bytes} {failure : Option ReadError}
    (contents : source.contents = ⟨wire ++ rest, failure, after⟩) {sizes : List Nat}
    (positive : ∀ n ∈ sizes, 0 < n) :
    ((seeded layout source {}).drain sizes).bytes <+: message ∧
      (message.length < sizes.length →
        ((seeded layout source {}).drain sizes).outcome = some (.ok ()) ∧
        ((seeded layout source {}).drain sizes).bytes = message) := by
  obtain ⟨final, run, -, delivered⟩ :=
    turns { contents := ⟨wire ++ rest, failure, after⟩ } rest rfl
  have message_eq : final.delivered = message := delivered
  have once : layout.decodeOnce source.contents {} = (.ok (), final) := by
    rw [contents]
    exact run
  have spec := @drain_enough layout source {} sizes sound answers positive
  rw [once] at spec
  dsimp only at spec
  rw [message_eq] at spec
  obtain ⟨begins, enough⟩ := spec
  refine ⟨begins, fun more => ⟨enough more, ?_⟩⟩
  obtain ⟨-, bytes_eq, -⟩ := drain_reached sound answers positive (enough more)
  rw [bytes_eq, once]
  exact message_eq

namespace Layout

open Decoder (seeded)

theorem verbatim_layout (v : Value) : ∀ g ∈ v.sampleLayout.gaps, g.Verbatim := by
  unfold Value.sampleLayout
  dsimp only
  apply Field.forall_layOut
  · intro words
    exact .inl rfl
  · intro f member
    rw [List.mem_singleton.mp member]
    exact Field.verbatim_sample v

/-- The layout of a value puts out its message, and makes the message again. -/
theorem sample_carried {v : Value} (list : v.isList = true) (fits : v.fits = true)
    {message : Bytes} (encoded : encode v = .ok message) :
    ∃ wire, v.sampleLayout.encodeOnce message = .ok wire ∧
      (Pass.gaps v.sampleLayout.gaps).Turns wire message () := by
  obtain ⟨items, body, rfl, inner, rfl⟩ := Tagged.encode_ok encoded
  have declared : ∀ f ∈ [(Value.list items).sampleField], f.Declared none := by
    have read := readFields_sample list fits (Token.scan_sample (.list items)).1
    have reads := (readFields_reads (congrArg Prod.snd read)).1.declared
    rwa [read] at reads
  have plain : Field.allPlain [(Value.list items).sampleField] = true := by
    rw [Field.allPlain, Field.isPlain_sample]
    rfl
  obtain ⟨wire, puts, turns⟩ := Field.carries fits body inner (l := (Value.list items).sampleLayout)
  refine ⟨wire, encodeOnce_of_puts ?_, ?_⟩
  · apply Puts.of_agree (Strict.layOut_agrees declared plain .nil "")
    have single : Strict.fields (Value.list items).sampleLayout [(Value.list items).sampleField] =
        Strict.field (Value.list items).sampleLayout (Value.list items).sampleField :=
      Strict.bind_unit _
    rw [single]
    exact puts
  · have pass : Pass.gaps (Value.list items).sampleLayout.gaps = (do
        Pass.deliver []
        Pass.fields [(Value.list items).sampleField]) := Pass.layOut_fields declared plain []
    have single : Pass.fields [(Value.list items).sampleField] =
        Pass.field (Value.list items).sampleField := Pass.bind_unit _
    rw [pass, single]
    exact turns.behind []

/-- The grammar of a list gives one layout, if the counts and lengths in the list can be told by
signed words. Under this layout the list is written, and read as it was, if its lists do not nest
too deep to be read. Its message is the tag words of each gap and behind them the external bytes of
the gap; it is what a decoder delivers that is given the external bytes, in whatever pieces. -/
theorem sample_fits {v : Value} (list : v.isList = true) (fits : v.fits = true)
    (shallow : v.depth ≤ Tagged.maxDepth) :
    compileSections v.sampleGrammar = .ok [v.sampleLayout] ∧ ∃ wire message,
      encode v = .ok message ∧ v.sampleLayout.write v = .ok wire ∧
      v.sampleLayout.read wire = .ok v ∧
      (v.sampleLayout.spans ⟨wire, none, []⟩ {}).map Span.gap = v.sampleLayout.gaps ∧
      (v.sampleLayout.spans ⟨wire, none, []⟩ {}).flatMap Span.bytes = wire ∧
      ((v.sampleLayout.spans ⟨wire, none, []⟩ {}).flatMap fun s => s.gap.template ++ s.bytes) =
        message ∧
      ∀ (source : Source) (rest : Bytes) (failure : Option ReadError) (after : Bytes)
        (sizes : List Nat), source.Answers → source.contents = ⟨wire ++ rest, failure, after⟩ →
        (∀ n ∈ sizes, 0 < n) →
        ((seeded v.sampleLayout source {}).drain sizes).bytes <+: message ∧
        (message.length < sizes.length →
          ((seeded v.sampleLayout source {}).drain sizes).outcome = some (.ok ()) ∧
          ((seeded v.sampleLayout source {}).drain sizes).bytes = message) := by
  have compiled := compileSections_sample list fits
  have sound := compileSections_sound compiled (List.mem_singleton.mpr rfl)
  obtain ⟨message, encoded⟩ := Tagged.encode_fitting list fits
  obtain ⟨wire, written, turns⟩ := sample_carried list fits encoded
  refine ⟨compiled, wire, message, encoded, ?_, ?_, Pass.spans_gaps _ _, ?_⟩
  · rw [write_eq, encoded]
    exact written
  · exact read_turned sound turns (Tagged.message_of_encode shallow encoded)
  · obtain ⟨final, run, used_up, delivered⟩ :=
      turns { contents := ⟨wire, none, []⟩ } [] (List.append_nil wire).symm
    have moves := Pass.gaps_verbatim (verbatim_layout v) run
    have taken := moves.wire
    rw [used_up, List.append_nil] at taken
    have sent := moves.delivered.symm.trans delivered
    refine ⟨taken.symm, List.append_cancel_left sent, ?_⟩
    intro source rest failure after sizes answers contents positive
    exact Decoder.drain_turned sound turns answers contents positive

/-- An empty list, a list of two texts, a signalling NaN and a list of a list. -/
def nested : Value :=
  .list [.list [], .list [.string [104], .string []], .float32 0x7f800001,
    .list [.list [.int8 (-1)]]]

theorem sample_fits_nested :
    nested.isList = true ∧ nested.fits = true ∧ nested.depth ≤ Tagged.maxDepth ∧
      nested.sampleGrammar =
        "list 4 list 0 vector string 2 * float32 * list 1 vector int8 1 *" ∧
      compileSections "list 4 list 0 vector string 2 * float32 * list 1 vector int8 1 *" =
        .ok [nested.sampleLayout] ∧
      nested.sampleLayout.write nested =
        .ok [1, 0, 0, 0, 104, 0, 0, 0, 0, 1, 0, 0x80, 0x7f, 0xff] ∧
      nested.sampleLayout.read [1, 0, 0, 0, 104, 0, 0, 0, 0, 1, 0, 0x80, 0x7f, 0xff] =
        .ok nested ∧
      ((nested.sampleLayout.spans ⟨[1, 0, 0, 0, 104, 0, 0, 0, 0, 1, 0, 0x80, 0x7f, 0xff], none, []⟩
        {}).flatMap fun s => s.gap.template ++ s.bytes) =
        [0, 1, 0, 0, 4, 0, 0, 0, 0, 1, 0, 0, 0, 0, 0, 0, 4, 1, 0, 0, 2, 0, 0, 0, 1, 0, 0, 0, 104,
          0, 0, 0, 0, 128, 0, 0, 0, 1, 0, 0x80, 0x7f, 0, 1, 0, 0, 1, 0, 0, 0, 32, 1, 0, 0,
          1, 0, 0, 0, 0xff] := by
  have list : nested.isList = true := rfl
  have fits : nested.fits = true := by decide
  have shallow : nested.depth ≤ Tagged.maxDepth := by decide
  have grammar : nested.sampleGrammar =
      "list 4 list 0 vector string 2 * float32 * list 1 vector int8 1 *" := by rfl
  have encoded : encode nested =
      .ok [0, 1, 0, 0, 4, 0, 0, 0, 0, 1, 0, 0, 0, 0, 0, 0, 4, 1, 0, 0, 2, 0, 0, 0, 1, 0, 0, 0, 104,
        0, 0, 0, 0, 128, 0, 0, 0, 1, 0, 0x80, 0x7f, 0, 1, 0, 0, 1, 0, 0, 0, 32, 1, 0, 0,
        1, 0, 0, 0, 0xff] := by rfl
  have written : nested.sampleLayout.write nested =
      .ok [1, 0, 0, 0, 104, 0, 0, 0, 0, 1, 0, 0x80, 0x7f, 0xff] := by
    rw [write_eq, encoded]
    decide +kernel
  obtain ⟨compiled, wire, message, encoded', written', read, -, -, interleaved, -⟩ :=
    sample_fits list fits shallow
  rw [written] at written'
  rw [encoded] at encoded'
  cases written'
  cases encoded'
  rw [grammar] at compiled
  exact ⟨list, fits, shallow, grammar, compiled, written, read, interleaved⟩

end Layout

end TagWire
