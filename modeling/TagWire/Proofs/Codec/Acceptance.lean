import TagWire.Proofs.Codec.Elements
import TagWire.Proofs.Decoder.Streaming
import TagWire.Proofs.Layout.Closing

/-!
# What an encoder accepts

A message that an encoder accepts is the one that a decoder makes of what was put out for it. Only
the tag of a list without items may be the tag of another list, because such a list has no items to
tell their kind.

- `Word.PassFor`: words of a message that pass for the tag words of a gap.
- `Strict.Mirrors`: what a part of the walk accepts, a part of a pass makes again.
- `Codec.update_accepted`: a whole message, and the stream of a decoder over what was put out.
-/

namespace TagWire

/-- Words of a message that pass for those of a gap. The words behind the tags of lists are their
lengths. `empty` says that the list has no items whose tag is the last word. -/
inductive Word.PassFor (empty : Prop) : List Word → List Word → Prop
  | nil : PassFor empty [] []
  | tag {w : Word} {words received : List Word} (plain : w.isList = false)
      (further : PassFor empty words received) : PassFor empty (w :: words) (w :: received)
  | list {tag length : Word} {words received : List Word} (list : tag.isList = true)
      (further : PassFor empty words received) :
      PassFor empty (tag :: length :: words) (tag :: length :: received)
  | emptyList {tag other : Word} {words received : List Word} (list : tag.isList = true)
      (other_list : other.isList = true) (further : PassFor empty words received) :
      PassFor empty (tag :: 0 :: words) (other :: 0 :: received)
  | opened {tag : Word} (list : tag.isList = true) : PassFor empty [tag] [tag]
  | openedEmpty {tag other : Word} (list : tag.isList = true) (other_list : other.isList = true)
      (no_items : empty) : PassFor empty [tag] [other]

theorem Word.PassFor.mono {empty empty' : Prop} (weaker : empty → empty')
    {words received : List Word} (h : PassFor empty words received) :
    PassFor empty' words received := by
  induction h with
  | nil => exact .nil
  | tag plain _ ih => exact .tag plain ih
  | list list _ ih => exact .list list ih
  | emptyList list other_list _ ih => exact .emptyList list other_list ih
  | opened list => exact .opened list
  | openedEmpty list other_list no_items => exact .openedEmpty list other_list (weaker no_items)

namespace Strict

variable {α : Type} {origin : String} {t t' : Tape}

theorem take_ok {n : Nat} {out : Bool} {bytes : Bytes}
    (run : (take n out).run t = .ok (bytes, t')) :
    bytes.length = n ∧ t.rest = bytes ++ t'.rest ∧
      t' = { t with rest := t'.rest, output := t.output ++ if out then bytes else [] } := by
  change (if n ≤ t.rest.length then _ else _) = _ at run
  split at run
  · rename_i enough
    cases run
    exact ⟨List.length_take_of_le enough, (List.take_append_drop n t.rest).symm, rfl⟩
  · cases run

/-- A part of the walk that begins with a word has a word before it. -/
theorem word_ok {out : Bool} {q : Word → Strict α} {a : α}
    (run : (takeWord out >>= q).run t = .ok (a, t')) :
    ∃ (w : Word) (rest : Bytes), t.rest = w.toBytes ++ rest := by
  obtain ⟨w, t₁, taken, -⟩ := bind_ok run
  obtain ⟨bytes, t₂, taken, -⟩ := bind_ok taken
  obtain ⟨size, split, -⟩ := take_ok taken
  exact ⟨Word.ofBytes bytes, t₂.rest, by rw [Word.toBytes_ofBytes size, split]⟩

/-- The words that get past those of a gap, by the recursion of the check. A difference that is
still deferred at the end is that of the last word. -/
theorem checkWords_walked {words : List Word} (settled : t.deferred = none)
    (run : (checkWords origin words).run t = .ok ((), t')) :
    ∃ received, t.rest = received.flatMap Word.toBytes ++ t'.rest ∧ t'.output = t.output ∧
      Word.PassFor (t'.deferred ≠ none) words received ∧
      (t'.deferred ≠ none → Word.endsOpen words = true) := by
  induction words using checkWords.induct generalizing t with
  | case1 =>
    cases run
    exact ⟨[], rfl, rfl, .nil, fun differs => absurd settled differs⟩
  | case2 tag =>
    rw [checkWords] at run
    obtain ⟨w, rest, split⟩ := word_ok run
    rcases checkTag_walked split run with ⟨rfl, rfl⟩ | ⟨list, other_list, rfl⟩
    · refine ⟨[tag], by simpa using split, rfl, ?_, fun differs => absurd settled differs⟩
      cases list : tag.isList with
      | true => exact .opened list
      | false => exact .tag list .nil
    · exact ⟨[w], by simpa using split, rfl,
        .openedEmpty list other_list (Option.some_ne_none _), fun _ => list⟩
  | case3 tag next rest behind following =>
    rw [checkWords] at run
    obtain ⟨_, t₁, tagged, run⟩ := bind_ok run
    obtain ⟨w, left, split⟩ := word_ok tagged
    have walked := checkTag_walked split tagged
    by_cases list : tag.isList = true
    · rw [if_pos list] at run
      obtain ⟨_, t₂, counted, run⟩ := bind_ok run
      obtain ⟨length, left', split'⟩ := word_ok counted
      obtain ⟨rfl, empty, rfl⟩ := checkLength_walked split' counted
      obtain ⟨received, rest_eq, output, passes, opened⟩ := behind rfl run
      change left' = _ at rest_eq
      have left_eq : t₁.rest = left := by
        rcases walked with ⟨rfl, rfl⟩ | ⟨_, _, rfl⟩ <;> rfl
      rw [← left_eq, split', rest_eq] at split
      have opens : Word.endsOpen (tag :: next :: rest) = Word.endsOpen rest := by
        rw [Word.endsOpen, if_pos list]
      rcases walked with ⟨rfl, rfl⟩ | ⟨_, other_list, rfl⟩
      · exact ⟨tag :: next :: received, by simpa using split, output, .list list passes,
          opens ▸ opened⟩
      · obtain rfl : next = 0 := empty (Option.some_ne_none _)
        exact ⟨w :: 0 :: received, by simpa using split, output, .emptyList list other_list passes,
          opens ▸ opened⟩
    · rw [if_neg list] at run
      rcases walked with ⟨rfl, rfl⟩ | ⟨is_list, _, _⟩
      · obtain ⟨received, rest_eq, output, passes, opened⟩ :=
          following (t := { t with rest := left }) settled run
        refine ⟨tag :: received, ?_, output, .tag (Bool.not_eq_true _ ▸ list) passes, ?_⟩
        · change left = _ at rest_eq
          rw [split, rest_eq, List.flatMap_cons, List.append_assoc]
        · rwa [Word.endsOpen, if_neg list]
      · exact absurd is_list list

/-- What a part of the walk accepts where no difference is deferred, a part of a pass makes again of
what was put out. -/
def Mirrors (walk : Strict Unit) (pass : Pass Unit) : Prop :=
  ∀ t t', t.deferred = none → walk.run t = .ok ((), t') →
    t'.deferred = none ∧ ∃ data out, t.rest = data ++ t'.rest ∧ t'.output = t.output ++ out ∧
      pass.Turns out data ()

namespace Mirrors

theorem done : Mirrors (pure ()) (pure ()) := by
  intro t t' settled run
  cases run
  exact ⟨settled, [], [], rfl, (List.append_nil _).symm, .done ()⟩

/-- What holds of one element holds of several. -/
theorem times {walk : Strict Unit} {pass : Pass Unit} (each : Mirrors walk pass) (n : Nat) :
    Mirrors (Strict.times walk n) (Pass.repeated pass n) := by
  induction n with
  | zero => exact done
  | succ n ih =>
    intro t t' settled run
    obtain ⟨_, t₁, first, run⟩ := bind_ok run
    obtain ⟨settled₁, data, out, rest_eq, output, turns⟩ := each t t₁ settled first
    obtain ⟨settled', data', out', rest_eq', output', turns'⟩ := ih t₁ t' settled₁ run
    refine ⟨settled', data ++ data', out ++ out', ?_, ?_, turns.bind turns'⟩
    · rw [rest_eq, rest_eq', List.append_assoc]
    · rw [output', output, List.append_assoc]

theorem forward (n : Nat) (origin : String) :
    Mirrors (Strict.pass n true) (Pass.forward origin n) := by
  intro t t' settled run
  obtain ⟨bytes, t₁, taken, run⟩ := bind_ok run
  obtain ⟨size, split, t₁_eq⟩ := take_ok taken
  rw [t₁_eq] at run
  cases run
  exact ⟨settled, bytes, bytes, split, rfl, Pass.forward_turns origin size⟩

theorem text (origin : String) (g : Gap) (origin' : String) :
    Mirrors (Strict.passText origin g) (Pass.text origin') := by
  intro t t' settled run
  obtain ⟨n, t₁, measured, passed⟩ := bind_ok run
  obtain ⟨w, left, split⟩ := word_ok measured
  obtain ⟨told, -, rfl⟩ := takeLength_walked split measured
  obtain ⟨bytes, t₂, taken, remembered⟩ := bind_ok passed
  obtain ⟨rfl, split', t₂_eq⟩ := take_ok taken
  rw [t₂_eq] at remembered
  cases remembered
  refine ⟨rfl, w.toBytes ++ bytes, w.toBytes ++ bytes, ?_, ?_, Pass.text_turns origin' told⟩
  · change left = _ at split'
    rw [split, split', List.append_assoc]
  · exact List.append_assoc ..

/-- An integer is filled up by its own last byte, so that the fill is found to be its sign. -/
theorem padded {p : Payload} (sound : p.Sound) {size outer : Nat} {signed : Bool}
    (pad : p.conversion = .pad outer signed) (known : p.kind.size? = some size) :
    Mirrors (Strict.passPadded size outer signed) (do Pass.deliver (← Pass.element p)) := by
  intro t t' settled run
  obtain ⟨_, t₁, passed, _⟩ := bind_ok run
  obtain ⟨kept, t₂, taken, _⟩ := bind_ok passed
  obtain ⟨length, split, -⟩ := take_ok taken
  obtain ⟨_, _, same, less, _⟩ := sound.pad pad
  obtain rfl := Option.some.inj (known.symm.trans same)
  have some_kept : kept ≠ [] := by
    have size_pos := (Kind.size_pos known).1
    exact List.ne_nil_of_length_pos (by omega)
  obtain ⟨t₃, run', settled', rest_eq, output⟩ :=
    puts_passPadded length some_kept outer signed t t₂.rest settled split
  obtain rfl : t' = t₃ := by
    rw [run] at run'
    cases run'
    rfl
  refine ⟨settled', kept, _, ?_, output, Codec.padded_turns sound pad known length⟩
  rw [split, rest_eq]

/-- The elements of data, unless they lose precision. -/
theorem elements {p : Payload} (sound : p.Sound) (exact : p.conversion ≠ .narrow) (origin : String)
    (g : Gap) (n : Nat) : Mirrors (Strict.passElements origin g p n) (Pass.elements p n) := by
  unfold Strict.passElements Pass.elements
  cases known : p.kind.size? with
  | none => exact (text origin g p.origin).times n
  | some size =>
    cases conversion : p.conversion with
    | identity => exact forward (n * size) p.origin
    | narrow => exact absurd conversion exact
    | pad outer signed => exact (padded sound conversion known).times n

end Mirrors

/-- Data is accepted behind a tag that differs only if it tells that there are no elements. -/
theorem payload_walked {p : Payload} (sound : p.Sound) (exchanged : p.use = .exchanged)
    (exact : p.conversion ≠ .narrow) {g : Gap}
    (counted : t.deferred ≠ none → p.count = .fromWire)
    (run : (passPayload origin g p).run t = .ok ((), t')) :
    t'.deferred = none ∧ ∃ data out, t.rest = data ++ t'.rest ∧ t'.output = t.output ++ out ∧
      (Pass.payload p).Turns out data () ∧
      (t.deferred ≠ none → (0 : Word).toBytes <+: data) := by
  rw [passPayload, exchanged] at run
  rw [Pass.payload, exchanged]
  dsimp only at run ⊢
  cases count : p.count with
  | fixed n =>
    rw [count] at run counted
    have settled : t.deferred = none := by
      by_cases settled : t.deferred = none
      · exact settled
      · cases counted settled
    obtain ⟨settled', data, out, rest_eq, output, turns⟩ :=
      Mirrors.elements sound exact origin g n t t' settled run
    exact ⟨settled', data, out, rest_eq, output, turns, fun differs => absurd settled differs⟩
  | fromWire =>
    rw [count] at run
    obtain ⟨n, t₁, measured, run⟩ := bind_ok run
    obtain ⟨w, left, split⟩ := word_ok measured
    obtain ⟨told, empty, rfl⟩ := takeLength_walked split measured
    obtain ⟨settled', data, out, rest_eq, output, turns⟩ :=
      Mirrors.elements sound exact origin g n _ t' rfl run
    refine ⟨settled', w.toBytes ++ data, w.toBytes ++ out, ?_, ?_, Pass.counted_turns told turns,
      fun differs => ?_⟩
    · change left = _ at rest_eq
      rw [split, rest_eq, List.append_assoc]
    · rw [output, List.append_assoc]
    · rw [empty differs]
      exact List.prefix_append _ data

end Strict

/-- Whether the gap is in the message as it is outside: its data is neither left out nor taken from
properties, and loses no precision. -/
def Gap.IsExact (g : Gap) : Prop :=
  g.isHidden = false ∧ ∀ p, g.payload? = some p → p.use.isLoaded = false ∧ p.conversion ≠ .narrow

theorem Gap.IsExact.exchanged {g : Gap} (exact : g.IsExact) {p : Payload}
    (data : g.content = .data p) : p.use = .exchanged ∧ p.conversion ≠ .narrow := by
  obtain ⟨visible, rest⟩ := exact
  rw [isHidden, data] at visible
  obtain ⟨not_loaded, precise⟩ := rest p (by rw [payload?, data])
  refine ⟨?_, precise⟩
  cases use : p.use with
  | exchanged => rfl
  | skipped | saved => simp [use, Use.isHidden] at visible
  | loaded => simp [use, Use.isLoaded] at not_loaded

/-- What came in a message for a gap: words for its tag words, and its data. -/
structure Receipt where
  gap : Gap
  words : List Word
  data : Bytes
  deriving DecidableEq, Repr

namespace Receipt

/-- The bytes that came. -/
def received (r : Receipt) : Bytes := r.words.flatMap Word.toBytes ++ r.data

/-- The bytes that come from a sender that knows the tag words. -/
def regular (r : Receipt) : Bytes := r.gap.template ++ r.data

/-- The words that came are those of the gap, but for tags of lists whose length is zero. That of a
vector may be told in front of its elements. -/
def Passes (r : Receipt) : Prop :=
  Word.PassFor (r.gap.count = .fromWire ∧ (0 : Word).toBytes <+: r.data) r.gap.words r.words

end Receipt

namespace Codec

open Decoder (seeded)
open Layout (compileSections)
open Strict (checkWords_walked payload_walked bind_ok)

theorem gap_accepted (l : Layout) {g : Gap} (closed : g.Closed) (exact : g.IsExact)
    (sound : ∀ p, g.payload? = some p → p.Sound) {t t' : Tape} (settled : t.deferred = none)
    (run : (Strict.passGap l g).run t = .ok ((), t')) :
    t'.deferred = none ∧ ∃ (r : Receipt) (out : Bytes), r.gap = g ∧ r.Passes ∧
      t.rest = r.received ++ t'.rest ∧ t'.output = t.output ++ out ∧
      (Pass.gap g).Turns out r.regular () := by
  obtain ⟨_, t₁, checked, run⟩ := bind_ok run
  obtain ⟨words, split, output, passes, opened⟩ := checkWords_walked settled checked
  obtain ⟨template, content⟩ := g
  cases content with
  | derivation => exact absurd exact.1 nofun
  | nothing =>
    cases run
    have settled' : t'.deferred = none := by
      by_cases settled' : t'.deferred = none
      · exact settled'
      · obtain ⟨_, data, -⟩ := closed (opened settled')
        cases data
    refine ⟨settled', ⟨⟨template, .nothing⟩, words, []⟩, [], rfl, ?_, ?_, ?_, ?_⟩
    · exact passes.mono fun differs => absurd settled' differs
    · rw [split, Receipt.received, List.append_nil]
    · rw [output, List.append_nil]
    · rw [Receipt.regular, List.append_nil]
      exact Pass.deliver_turns _
  | data p =>
    obtain ⟨exchanged, precise⟩ := exact.exchanged rfl
    have counted : t₁.deferred ≠ none → p.count = .fromWire := by
      intro differs
      obtain ⟨_, data, -, counted⟩ := closed (opened differs)
      cases data
      exact counted
    obtain ⟨settled', data, out, rest_eq, output', turns, empty⟩ :=
      payload_walked (sound p rfl) exchanged precise counted run
    refine ⟨settled', ⟨⟨template, .data p⟩, words, data⟩, out, rfl, ?_, ?_, ?_, turns.behind _⟩
    · exact passes.mono fun differs => ⟨counted differs, empty differs⟩
    · rw [split, rest_eq, Receipt.received, List.append_assoc]
    · rw [output', output]

/-- A message that gets past all gaps, one receipt for each. -/
theorem gaps_accepted (l : Layout) {gaps : List Gap} (closed : ∀ g ∈ gaps, g.Closed)
    (exact : ∀ g ∈ gaps, g.IsExact) (sound : ∀ g ∈ gaps, ∀ p, g.payload? = some p → p.Sound)
    {t t' : Tape} (settled : t.deferred = none)
    (run : (Strict.passGaps l gaps).run t = .ok ((), t')) :
    ∃ (receipts : List Receipt) (out : Bytes), receipts.map Receipt.gap = gaps ∧
      (∀ r ∈ receipts, r.Passes) ∧ t.rest = receipts.flatMap Receipt.received ++ t'.rest ∧
      t'.output = t.output ++ out ∧
      (Pass.gaps gaps).Turns out (receipts.flatMap Receipt.regular) () := by
  induction gaps generalizing t with
  | nil =>
    cases run
    exact ⟨[], [], rfl, nofun, rfl, (List.append_nil _).symm, .done ()⟩
  | cons g rest ih =>
    obtain ⟨_, t₁, first, further⟩ := bind_ok run
    obtain ⟨settled₁, r, out, rfl, passes, split, output, turns⟩ :=
      gap_accepted l (closed g List.mem_cons_self) (exact g List.mem_cons_self)
        (sound g List.mem_cons_self) settled first
    obtain ⟨receipts, out', rfl, all_pass, split', output', turns'⟩ :=
      ih (fun g member => closed g (List.mem_cons_of_mem _ member))
        (fun g member => exact g (List.mem_cons_of_mem _ member))
        (fun g member => sound g (List.mem_cons_of_mem _ member)) settled₁ further
    refine ⟨r :: receipts, out ++ out', rfl, ?_, ?_, ?_, turns.bind turns'⟩
    · intro r' member
      rcases List.mem_cons.mp member with rfl | behind
      · exact passes
      · exact all_pass r' behind
    · rw [split, split', List.flatMap_cons, List.append_assoc]
    · rw [output', output, List.append_assoc]

/-- An encoder over a layout with exact gaps accepts only messages that a decoder makes again of
what is put out for them, whatever the pieces in which it arrives, and nothing of it is left. A
message differs from what the decoder makes at most in the tags of lists without items. -/
theorem update_accepted {grammar : String} {layouts : List Layout}
    (compiled : compileSections grammar = .ok layouts) {layout : Layout}
    (member : layout ∈ layouts) (exact : ∀ g ∈ layout.gaps, g.IsExact) {buffer : BlockBuffer}
    (accepted : (Encoder.start layout buffer).update.isOk = true) :
    ∃ receipts : List Receipt, receipts.map Receipt.gap = layout.gaps ∧
      (∀ r ∈ receipts, r.Passes) ∧ buffer.payload = receipts.flatMap Receipt.received ∧
      ∀ (source : Source) (properties : Properties) (sizes : List Nat), source.Answers →
        source.contents = ⟨(Encoder.start layout buffer).update.output, none, []⟩ →
        (∀ n ∈ sizes, 0 < n) →
        let stream := receipts.flatMap Receipt.regular
        let drained := (seeded layout source properties).drain sizes
        drained.bytes <+: stream ∧
          (stream.length < sizes.length → drained.outcome = some (.ok ())) ∧
          ∀ outcome, drained.outcome = some outcome →
            outcome = .ok () ∧ drained.bytes = stream ∧ drained.decoder.source.rest = [] := by
  have sound := Layout.compileSections_sound compiled member
  have closed := Layout.compileSections_closed compiled member
  have once : layout.encodeOnce buffer.payload =
      .ok (Encoder.start layout buffer).update.output := Encoder.encodeOnce_of_ok accepted
  obtain ⟨t, run, ended, output_eq⟩ := Layout.encodeOnce_ok once
  obtain ⟨receipts, out, gaps, passes, split, output, turns⟩ :=
    gaps_accepted layout closed exact sound rfl run
  rw [ended, List.append_nil] at split
  refine ⟨receipts, gaps, passes, split, ?_⟩
  intro source properties sizes answers contents positive stream drained
  have wire_eq : source.contents.wire = out := by
    rw [contents, ← output_eq, output, List.nil_append]
  obtain ⟨final, decoded, left, delivered⟩ :=
    turns { contents := source.contents, properties } [] (wire_eq.trans (List.append_nil out).symm)
  have once : layout.decodeOnce source.contents properties = (.ok (), final) := decoded
  have stream_eq : final.delivered = stream := delivered
  obtain ⟨begun, enough⟩ := @Decoder.drain_enough _ _ properties _ sound answers positive
  rw [once, stream_eq] at begun enough
  refine ⟨begun, enough, fun outcome reached => ?_⟩
  obtain ⟨rfl, -⟩ : outcome = .ok () ∧ _ := by
    have ended := Decoder.drain_reached sound answers positive reached
    rwa [once] at ended
  obtain ⟨final', once', bytes_eq, rest_eq⟩ := Decoder.drain_ok sound answers positive reached
  obtain rfl : final = final' := by
    rw [once] at once'
    cases once'
    rfl
  refine ⟨rfl, bytes_eq.trans stream_eq, ?_⟩
  rw [rest_eq, left, contents]
  rfl

/-- A list of padded integers and of texts. -/
def notes : Layout where
  gaps :=
    [⟨[256, 2, 320], .data ⟨.fromWire, .int16, .pad 4 true, .exchanged, "vector int16:4 *"⟩⟩,
      ⟨[260], .data ⟨.fromWire, .string, .identity, .exchanged, "vector string *"⟩⟩]
  grammar := "list 2 vector int16:4 * vector string *"

theorem compileSections_notes :
    compileSections "list 2 vector int16:4 * vector string *" = .ok [notes] :=
  @Layout.compileSections_single _
    [⟨"", "list", 0⟩, ⟨" ", "2", 5⟩, ⟨" ", "vector", 7⟩, ⟨" ", "int16:4", 14⟩, ⟨" ", "*", 22⟩,
      ⟨" ", "vector", 24⟩, ⟨" ", "string", 31⟩, ⟨" ", "*", 38⟩]
    [.group false [256, 2]
      [.data [320] ⟨.fromWire, .int16, .pad 4 true, .exchanged, "vector int16:4 *"⟩,
        .data [260] ⟨.fromWire, .string, .identity, .exchanged, "vector string *"⟩]] rfl rfl

/-- A message whose second list, which is empty, comes as a list of float64 numbers. -/
def strayNotes : BlockBuffer :=
  ⟨[], [[0, 1, 0, 0, 2, 0, 0, 0, 64, 1, 0], [0, 1, 0, 0, 0, 0xfe, 0xff, 10, 1, 0, 0, 0, 0, 0, 0]]⟩

def notesSource : Source :=
  ⟨[.bytes [1, 0, 0], .interruption, .bytes [0, 0xfe, 0xff, 0xff, 0xff, 0, 0, 0, 0]], some 2⟩

theorem update_notes :
    compileSections "list 2 vector int16:4 * vector string *" = .ok [notes] ∧
      (∀ g ∈ notes.gaps, g.IsExact) ∧ (Encoder.start notes strayNotes).update.isOk = true ∧
      ∃ receipts : List Receipt, receipts.map Receipt.gap = notes.gaps ∧
        (∀ r ∈ receipts, r.Passes) ∧ strayNotes.payload = receipts.flatMap Receipt.received ∧
        receipts.flatMap Receipt.regular =
          [0, 1, 0, 0, 2, 0, 0, 0, 64, 1, 0, 0, 1, 0, 0, 0, 0xfe, 0xff, 4, 1, 0, 0, 0, 0, 0, 0] ∧
        ((seeded notes notesSource {}).drain (List.replicate 30 3)).outcome = some (.ok ()) ∧
        ((seeded notes notesSource {}).drain (List.replicate 30 3)).bytes =
          receipts.flatMap Receipt.regular ∧
        ((seeded notes notesSource {}).drain (List.replicate 30 3)).decoder.source.rest = [] := by
  have exact : ∀ g ∈ notes.gaps, g.IsExact := by
    rintro g (_ | ⟨_, _ | ⟨_, ⟨⟩⟩⟩)
    · exact ⟨rfl, by rintro p ⟨rfl⟩; exact ⟨rfl, nofun⟩⟩
    · exact ⟨rfl, by rintro p ⟨rfl⟩; exact ⟨rfl, nofun⟩⟩
  have accepted : (Encoder.start notes strayNotes).update.isOk = true := by decide +kernel
  have output : (Encoder.start notes strayNotes).update.output =
      [1, 0, 0, 0, 0xfe, 0xff, 0xff, 0xff, 0, 0, 0, 0] := by decide +kernel
  have answers : notesSource.Answers := by simp [notesSource, Source.Answers]
  have positive : ∀ n ∈ List.replicate 30 3, 0 < n := by decide
  have sound : notes.Sound :=
    Layout.compileSections_sound compileSections_notes (List.mem_singleton.mpr rfl)
  have once : notes.decodeOnce notesSource.contents {} =
      (.ok (), ⟨[0, 1, 0, 0, 2, 0, 0, 0, 64, 1, 0, 0, 1, 0, 0, 0, 0xfe, 0xff, 4, 1, 0, 0, 0, 0, 0,
        0], ⟨[], none, []⟩, {}⟩) := Prod.ext (by rfl) (by rfl)
  have ended : ((seeded notes notesSource {}).drain (List.replicate 30 3)).outcome =
      some (.ok ()) := by
    have enough := (@Decoder.drain_enough _ _ {} _ sound answers positive).2
    rw [once] at enough
    exact enough (by decide)
  obtain ⟨receipts, gaps, passes, payload, drained⟩ :=
    update_accepted compileSections_notes (List.mem_singleton.mpr rfl) exact accepted
  obtain ⟨-, -, reached⟩ :=
    drained notesSource {} (List.replicate 30 3) answers (by rw [output]; rfl) positive
  obtain ⟨-, bytes_eq, rest_eq⟩ := reached _ ended
  obtain ⟨final, once', bytes_eq', -⟩ := Decoder.drain_ok sound answers positive ended
  rw [once] at once'
  cases once'
  exact ⟨compileSections_notes, exact, accepted, receipts, gaps, passes, payload,
    bytes_eq.symm.trans bytes_eq', ended, bytes_eq, rest_eq⟩

end Codec

end TagWire
