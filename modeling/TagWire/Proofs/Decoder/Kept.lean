import TagWire.Proofs.Decoder.Moves
import TagWire.Proofs.Decoder.Passing
import TagWire.Proofs.Decoder.Streaming
import TagWire.Proofs.Grammar.Origins
import TagWire.Proofs.Properties.Image

/-!
# What is kept of saved data

A gap that saves its data takes the data from the source and delivers nothing. What it leaves
under its name is a number, if the data is a single integer, and else the bytes of the data
without any lengths.

- `Payload.Carries`: the bytes of data outside, and what is left of them without lengths.
- `Extent.Keeps`: what is kept of declared data.
- `Pass.gap_keeps`: what a gap leaves that saves its data.
- `Pass.gaps_spare`: what gaps leave alone.
- `Decoder.passed_saves`: what is found of the data that a decoder has saved.
-/

namespace TagWire

/-- The bytes of some elements outside, and the same bytes without the lengths of the elements. -/
inductive Payload.Sheds (p : Payload) : Nat → Bytes → Bytes → Prop
  | sized {n size bytes} (sized : p.wireSize? = some size) (length : bytes.length = n * size) :
      Sheds p n bytes bytes
  | unsized {elements : List (Word × Bytes)} (unsized : p.wireSize? = none)
      (told : ∀ e ∈ elements, e.1.length? = some e.2.length) :
      Sheds p elements.length (elements.flatMap fun e => e.1.toBytes ++ e.2)
        (elements.flatMap Prod.snd)

theorem Payload.Sheds.length_eq {p : Payload} {n size : Nat} {taken bytes : Bytes}
    (sheds : p.Sheds n taken bytes) (known : p.wireSize? = some size) :
    bytes.length = n * size := by
  cases sheds with
  | sized same length =>
    cases known.symm.trans same
    exact length
  | unsized unknown => cases known.symm.trans unknown

/-- The bytes of data outside, and the same bytes without the number of elements and their lengths.
-/
inductive Payload.Carries (p : Payload) : Bytes → Bytes → Prop
  | fixed {n taken bytes} (count : p.count = .fixed n) (sheds : p.Sheds n taken bytes) :
      Carries p taken bytes
  | counted {w n taken bytes} (count : p.count = .fromWire) (told : Word.length? w = some n)
      (sheds : p.Sheds n taken bytes) : Carries p (w.toBytes ++ taken) bytes

namespace Grammar

/-- What is kept of declared data: of a single integer the number that its bytes hold, and else the
bytes. A vector that is declared with one element is single too. -/
inductive Extent.Keeps (extent : Extent) (kind : Kind) (bytes : Bytes) : Property → Prop
  | number {i : Int64} (single : extent = .scalar ∨ extent = .vector (some 1))
      (integer : kind.isInteger = true) (value : i.toInt = Bytes.toInt bytes) :
      Keeps extent kind bytes (.int i)
  | raw (other : (extent = .scalar ∨ extent = .vector (some 1)) → kind.isInteger = false) :
      Keeps extent kind bytes (.bytes bytes)

theorem Extent.count_single {extent : Extent} :
    extent.count = .fixed 1 ↔ extent = .scalar ∨ extent = .vector (some 1) := by
  rcases extent with _ | _ | n <;> simp [count]

end Grammar

theorem Bytes.toInt_ofInt64 {bytes : Bytes} (short : bytes.length ≤ 8) :
    (Int64.ofInt (toInt bytes)).toInt = toInt bytes := by
  have positive := card_pos bytes.length
  have bound : card bytes.length ≤ card 8 := Nat.pow_le_pow_right (by decide) short
  have above := @Int.le_bmod (toNat bytes) _ positive
  have below := @Int.bmod_lt (toNat bytes) _ positive
  have widest : card 8 = 0x10000000000000000 := rfl
  rw [toInt]
  exact Image.toInt_of_fits ⟨by omega, by omega⟩

/-- An integer takes up to eight bytes outside. -/
theorem Payload.Sound.wireSize_le {p : Payload} (sound : p.Sound)
    (integer : p.kind.isInteger = true) :
    ∃ size, p.wireSize? = some size ∧ size ≤ 8 := by
  obtain ⟨size, known⟩ := Kind.size_of_isInteger integer
  rw [Payload.wireSize?, known, Option.map_some]
  refine ⟨_, rfl, ?_⟩
  cases conversion : p.conversion with
  | identity => exact (Kind.size_pos known).2
  | narrow => exact Nat.le_of_ble_eq_true rfl
  | pad wire signed =>
    obtain ⟨-, _, -, -, bound⟩ := sound.pad conversion
    exact bound

/-- A single integer is kept as the number that its bytes hold. -/
theorem Task.saved_keeps {p : Payload} (sound : p.Sound) {words : List String}
    {extent : Grammar.Extent} (declares : Grammar.Declares p words extent) {taken bytes : Bytes}
    (carries : p.Carries taken bytes) : extent.Keeps p.kind bytes (saved p bytes) := by
  have single := extent.count_single
  rw [← declares.count_eq] at single
  unfold saved
  split
  · rename_i number
    obtain ⟨count, integer⟩ := number
    obtain ⟨size, sized, bound⟩ := sound.wireSize_le integer
    refine .number (single.mp count) integer (Bytes.toInt_ofInt64 ?_)
    cases carries with
    | counted other => cases count.symm.trans other
    | fixed other sheds =>
      cases count.symm.trans other
      have length := sheds.length_eq sized
      omega
  · rename_i other
    refine .raw fun alone => ?_
    have not_integer : ¬ p.kind.isInteger = true := fun integer => other ⟨single.mpr alone, integer⟩
    simpa using not_integer

namespace Pass

/-- Elements that each bring their length. -/
theorem texts_moves {origin : String} {n : Nat} {l l' : Ledger} {found : List Bytes}
    (h : (times (do exactly origin (← length origin)) n).run l = (.ok found, l')) :
    ∃ elements : List (Word × Bytes), elements.length = n ∧ elements.map Prod.snd = found ∧
      (∀ e ∈ elements, e.1.length? = some e.2.length) ∧
      Moves l l' (elements.flatMap fun e => e.1.toBytes ++ e.2) [] := by
  induction n generalizing l found with
  | zero =>
    cases h
    exact ⟨[], rfl, rfl, fun _ member => absurd member List.not_mem_nil, .refl _⟩
  | succ n ih =>
    obtain ⟨bytes, l₁, one, h⟩ := bind_ok h
    obtain ⟨rest, l₂, further, h⟩ := bind_ok h
    obtain ⟨size, l₃, measured, taken⟩ := bind_ok one
    cases h
    obtain ⟨w, told, length⟩ := length_moves measured
    obtain ⟨rfl, body⟩ := exactly_moves taken
    obtain ⟨elements, rfl, rfl, all_told, moves⟩ := ih further
    refine ⟨(w, bytes) :: elements, rfl, rfl, List.forall_mem_cons.mpr ⟨told, all_told⟩, ?_⟩
    exact (length.trans body).trans moves

theorem hiddenElements_moves {p : Payload} {n : Nat} {l l' : Ledger} {bytes : Bytes}
    (h : (hiddenElements p n).run l = (.ok bytes, l')) :
    ∃ taken, p.Sheds n taken bytes ∧ Moves l l' taken [] := by
  unfold hiddenElements at h
  cases sized : p.wireSize? with
  | some size =>
    rw [sized] at h
    obtain ⟨length, moves⟩ := exactly_moves h
    exact ⟨bytes, .sized sized length, moves⟩
  | none =>
    rw [sized] at h
    obtain ⟨found, l₁, taken, h⟩ := bind_ok h
    cases h
    obtain ⟨elements, rfl, rfl, told, moves⟩ := texts_moves taken
    refine ⟨_, ?_, moves⟩
    rw [← List.flatMap_def]
    exact .unsized sized told

theorem hidden_moves {p : Payload} {l l' : Ledger} {bytes : Bytes}
    (h : (hidden p).run l = (.ok bytes, l')) :
    ∃ taken, p.Carries taken bytes ∧ Moves l l' taken [] := by
  unfold hidden at h
  cases count : p.count with
  | fixed n =>
    rw [count] at h
    obtain ⟨taken, sheds, moves⟩ := hiddenElements_moves h
    exact ⟨taken, .fixed count sheds, moves⟩
  | fromWire =>
    rw [count] at h
    obtain ⟨n, l₁, counted, h⟩ := bind_ok h
    obtain ⟨w, told, length⟩ := length_moves counted
    obtain ⟨taken, sheds, moves⟩ := hiddenElements_moves h
    exact ⟨_, .counted count told sheds, length.trans moves⟩

/-- Hidden data is read, and the property is put that it is saved as. -/
theorem hide_ok {p : Payload} {l l' : Ledger} (run : (hide p).run l = (.ok (), l')) :
    ∃ bytes l₁, (hidden p).run l = (.ok bytes, l₁) ∧ l'.contents = l₁.contents ∧
      l'.properties =
        match p.use with
        | .saved name => l.properties.put name (Task.saved p bytes)
        | _ => l.properties := by
  obtain ⟨bytes, l₁, read, put⟩ := bind_ok run
  have same := steady_hidden p l
  rw [read] at same
  refine ⟨bytes, l₁, read, ?_⟩
  rw [← same]
  cases use : p.use with
  | exchanged | skipped | loaded | saved =>
    rw [use] at put
    cases put
    exact ⟨rfl, rfl⟩

/-- A gap that saves its data takes it from the source, delivers nothing and leaves what is kept of
the data under its name. -/
theorem gap_keeps {g : Gap} {p : Payload} {name : String} (data : g.payload? = some p)
    (use : p.use = .saved name) (unseen : g.words = []) {l l' : Ledger}
    (run : (gap g).run l = (.ok (), l')) :
    ∃ taken bytes, p.Carries taken bytes ∧ Moves l l' taken [] ∧
      l'.properties = l.properties.put name (Task.saved p bytes) := by
  obtain ⟨words, content⟩ := g
  cases content with
  | nothing | derivation => cases data
  | data p =>
    cases data
    cases unseen
    obtain ⟨_, l₁, sent, run⟩ := bind_ok run
    rw [payload, use] at run
    obtain ⟨bytes, l₂, read, contents, kept⟩ := hide_ok run
    obtain ⟨taken, carries, moves⟩ := hidden_moves read
    rw [use] at kept
    have silent := (silent_hide p).delivered_eq l₁
    rw [run] at silent
    cases sent
    refine ⟨taken, bytes, carries, ⟨?_, silent⟩, kept⟩
    exact moves.wire.trans (congrArg (fun c => taken ++ c.wire) contents.symm)

end Pass

/-- Whether a gap writes a property of this name. -/
def Gap.Writes (g : Gap) (name : String) : Prop :=
  match g.content with
  | .nothing => False
  | .derivation .. => name ∈ Image.names
  | .data p => p.use = .saved name

namespace Pass

theorem onward_spares (name : String) :
    Onward fun l l' => l'.properties.get? name = l.properties.get? name where
  refl _ := rfl
  trans first further := further.trans first
  delivers _ _ := rfl
  takes _ _ := rfl

/-- A property stays that a gap does not write. -/
theorem gap_spares {g : Gap} {name : String} (other : ¬ g.Writes name) :
    Leads (fun l l' => l'.properties.get? name = l.properties.get? name) (gap g) := by
  obtain ⟨words, content⟩ := g
  refine (onward_spares name).gap (fun p key data use l value => ?_)
    fun derivation origin derives l properties derived => ?_
  · cases content with
    | nothing | derivation => cases data
    | data p =>
      cases data
      have differs : name ≠ key := by
        rintro rfl
        exact other use
      exact (Properties.get?_put ..).trans (if_neg differs)
  · cases derives
    obtain ⟨_, _, _, _, _, geometry⟩ := Image.geometry_of_derive derived
    cases geometry.derive.symm.trans derived
    exact geometry.derived.others name other

/-- A property stays that no gap writes. -/
theorem gaps_spare {gs : List Gap} {name : String} (others : ∀ g ∈ gs, ¬ g.Writes name)
    {l l' : Ledger} (run : (gaps gs).run l = (.ok (), l')) :
    l'.properties.get? name = l.properties.get? name := by
  have same := (onward_spares name).gaps (fun g member => gap_spares (others g member)) l
  rwa [run] at same

end Pass

namespace Decoder

open Layout (compileSections)
open Grammar (Declares)

variable {layout : Layout}

/-- What happens in a gap that saves data under a name. Nothing is delivered, the data is taken from
the source, and what is kept of it is found under the name, all other properties being as before. -/
structure Saves (p : Payload) (name : String) (l l' : Ledger) (value : Property) : Prop where
  silent : l'.delivered = l.delivered
  kept : ∃ extent taken bytes, Declares p (Grammar.words p.origin) extent ∧
    l.wire = taken ++ l'.wire ∧ p.Carries taken bytes ∧ extent.Keeps p.kind bytes value
  found : l'.properties.get? name = some value
  others : ∀ other, other ≠ name → l'.properties.get? other = l.properties.get? other

theorem saves_gap {grammar : String} {layouts : List Layout}
    (compiled : compileSections grammar = .ok layouts) (member : layout ∈ layouts) {g : Gap}
    (inside : g ∈ layout.gaps) {p : Payload} {name : String} (data : g.payload? = some p)
    (use : p.use = .saved name) {l l' : Ledger} (run : (Pass.gap g).run l = (.ok (), l')) :
    ∃ value, Saves p name l l' value := by
  have sound := Layout.compileSections_sound compiled member g inside p data
  obtain ⟨_, _, declared⟩ := Layout.compileSections_declares compiled member
  obtain ⟨-, extent, declares⟩ := declared g inside p data
  have hidden : g.isHidden = true := by
    obtain ⟨words, content⟩ := g
    cases content with
    | nothing | derivation => cases data
    | data p =>
      cases data
      exact congrArg Use.isHidden use
  have bare := Layout.compileSections_unseen compiled member g inside hidden
  obtain ⟨taken, bytes, carries, moves, left⟩ := Pass.gap_keeps data use bare run
  refine ⟨Task.saved p bytes, ?_, ⟨extent, taken, bytes, declares, moves.wire, carries, ?_⟩, ?_, ?_⟩
  · exact moves.delivered.trans (List.append_nil _)
  · exact Task.saved_keeps sound declares carries
  · rw [left, Properties.get?_put, if_pos rfl]
  · intro other differs
    rw [left, Properties.get?_put, if_neg differs]

/-- Whatever is read from a decoder, its properties are those that the gaps leave which it has gone
over. Each of these gaps that saves its data delivers nothing, takes its data from the source where
the gaps in front of it have left off, and leaves what is kept of the data under its name: of a
single integer the number, and else the bytes. That is found until another gap writes under the same
name. -/
theorem passed_saves {grammar : String} {layouts : List Layout}
    (compiled : compileSections grammar = .ok layouts) {layout : Layout} (member : layout ∈ layouts)
    (properties : Properties) {source : Source} (answers : source.Answers) {ops : List Op}
    (reads : ∀ op ∈ ops, op.reads = true) :
    let d := ((seeded layout source properties).performAll ops).2
    let start : Ledger := { contents := source.contents, properties }
    ∃ past todo last, layout.gaps = past ++ todo ∧ d.passed ≤ past.length ∧
      (d.failed = none → d.passed = past.length) ∧ (Pass.gaps past).run start = (.ok (), last) ∧
      d.properties = last.properties ∧
      ∀ before g after p name, past = before ++ g :: after → g.payload? = some p →
        p.use = .saved name →
        ∃ l l' value, (Pass.gaps before).run start = (.ok (), l) ∧
          (Pass.gap g).run l = (.ok (), l') ∧ Saves p name l l' value ∧
          ((∀ g' ∈ after, ¬ g'.Writes name) → d.properties.get? name = some value) := by
  intro d start
  have sound := Layout.compileSections_sound compiled member
  have unseen := Layout.compileSections_unseen compiled member
  have tracks : Tracks (Supply.ofSource source.contents.failure source.contents.after)
      ⟨source, properties⟩ start :=
    ⟨⟨answers, rfl⟩, rfl, rfl⟩
  have fresh : (seeded layout source properties).Within
      (Supply.ofSource source.contents.failure source.contents.after) layout start :=
    ⟨rfl, fun _ => .between (List.nil_append _).symm rfl tracks, fun stopped => absurd rfl stopped⟩
  obtain ⟨past, todo, last, split, least, most, passed, same⟩ :=
    (performAll_within sound unseen fresh reads).gone
  refine ⟨past, todo, last, split, least, most, passed, same, ?_⟩
  rintro before g after p name rfl data use
  have inside : g ∈ layout.gaps := by simp [split]
  rw [Pass.gaps_append] at passed
  obtain ⟨_, l, before_passed, rest⟩ := Pass.bind_ok passed
  obtain ⟨_, l', run, behind⟩ := Pass.bind_ok rest
  obtain ⟨value, saves⟩ := saves_gap compiled member inside data use run
  refine ⟨l, l', value, before_passed, run, saves, fun spared => ?_⟩
  rw [same, Pass.gaps_spare spared behind, saves.found]

/-- A padded integer, a vector of one integer and a string that are saved, in front of an integer.
-/
def hoard : Layout :=
  ⟨[⟨[], .data ⟨.fixed 1, .int16, .pad 4 true, .saved "n", ">n int16:4 *"⟩⟩,
    ⟨[], .data ⟨.fixed 1, .int8, .identity, .saved "v", ">v vector int8 1 *"⟩⟩,
    ⟨[], .data ⟨.fixed 1, .string, .identity, .saved "s", ">s string *"⟩⟩,
    ⟨[32], .data ⟨.fixed 1, .int8, .identity, .exchanged, "int8 *"⟩⟩],
    ">n int16:4 * >v vector int8 1 * >s string * int8 *"⟩

theorem compileSections_hoard :
    compileSections ">n int16:4 * >v vector int8 1 * >s string * int8 *" = .ok [hoard] :=
  @Layout.compileSections_single _
    [⟨"", ">n", 0⟩, ⟨" ", "int16:4", 3⟩, ⟨" ", "*", 11⟩, ⟨" ", ">v", 13⟩, ⟨" ", "vector", 16⟩,
      ⟨" ", "int8", 23⟩, ⟨" ", "1", 28⟩, ⟨" ", "*", 30⟩, ⟨" ", ">s", 32⟩, ⟨" ", "string", 35⟩,
      ⟨" ", "*", 42⟩, ⟨" ", "int8", 44⟩, ⟨" ", "*", 49⟩]
    [.data [] ⟨.fixed 1, .int16, .pad 4 true, .saved "n", ">n int16:4 *"⟩,
      .data [] ⟨.fixed 1, .int8, .identity, .saved "v", ">v vector int8 1 *"⟩,
      .data [] ⟨.fixed 1, .string, .identity, .saved "s", ">s string *"⟩,
      .data [32] ⟨.fixed 1, .int8, .identity, .exchanged, "int8 *"⟩] rfl rfl

def hoardSource : Source :=
  ⟨[.bytes [254, 255], .interruption, .bytes [255, 255, 7, 2, 0, 0, 0, 104], .bytes [105, 5]],
    some 3⟩

/-- A decoder that has been asked for the first two bytes of the message. -/
def hoarding : Decoder Source := ((seeded hoard hoardSource {}).performAll [.read 2]).2

/-- All three are saved before the first bytes of the message are there. The string is kept as its
bytes, and the vector as a number. -/
theorem passed_hoard :
    compileSections ">n int16:4 * >v vector int8 1 * >s string * int8 *" = .ok [hoard] ∧
      hoardSource.Answers ∧ (∀ op ∈ [Op.read 2], op.reads = true) ∧ hoarding.failed = none ∧
      hoarding.passed = 3 ∧ hoarding.properties.get? "n" = some (.int (-2)) ∧
      hoarding.properties.get? "v" = some (.int 7) ∧
      ∃ l l', Saves ⟨.fixed 1, .string, .identity, .saved "s", ">s string *"⟩ "s" l l'
        (.bytes [104, 105]) := by
  have answers : hoardSource.Answers := by simp [hoardSource, Source.Answers]
  have reads : ∀ op ∈ [Op.read 2], op.reads = true := by decide
  obtain ⟨past, todo, last, split, -, all, -, -, saves⟩ :=
    passed_saves compileSections_hoard (List.mem_singleton.mpr rfl) {} answers reads
  have alive : hoarding.failed = none := by decide +kernel
  have three : hoarding.passed = 3 := by decide +kernel
  have length : past.length = 3 := (all alive).symm.trans three
  have first : past = hoard.gaps.take 3 := by rw [split, ← length, List.take_left]
  obtain ⟨l, l', value, -, -, saved, found⟩ := saves (hoard.gaps.take 2) _ [] _ "s" first rfl rfl
  have kept : hoarding.properties.get? "s" = some (.bytes [104, 105]) := by decide +kernel
  obtain rfl : value = .bytes [104, 105] :=
    Option.some.inj ((found fun _ member => absurd member List.not_mem_nil).symm.trans kept)
  exact ⟨compileSections_hoard, answers, reads, alive, three, by decide +kernel, by decide +kernel,
    l, l', saved⟩

end Decoder

end TagWire
