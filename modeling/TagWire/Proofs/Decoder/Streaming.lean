import TagWire.Proofs.Decoder.Chunking
import TagWire.Proofs.Layout.Compiled

/-!
# Chunking carries no meaning

However the external bytes arrive and however the tagged bytes are asked for, a decoder delivers
what a single pass over its layout delivers, ends as the pass ends, and leaves the properties and
the bytes that the pass leaves.

- `Decoder.drain_eq_decodeOnce`: draining a decoder against the single pass.
-/

namespace TagWire

namespace Pass

theorem keeps_gaps (gaps : List Gap) : Keeps (Pass.gaps gaps) := by
  rw [← Task.passAll_tasks]
  exact Task.keeps_passAll _

end Pass

namespace Decoder

open Layout (compileSections)

/-- A source that has come to the end of a pass has as many bytes left as the pass. -/
theorem left_of_parted {failure : Option ReadError} {after : Bytes} {c : Channel Source}
    {l : Ledger} (after_eq : l.contents.after = after)
    (parted : Parted (Supply.ofSource failure after) c l) :
    c.source.left = l.contents.left := by
  rw [Source.left, Contents.left, after_eq]
  rcases parted.source with holds | ⟨none_left, spent⟩
  · rw [Supply.ofSource_rest holds, List.length_append]
    rfl
  · have rest_eq : c.source.rest = after := spent
    have wire_eq : l.contents.wire = [] := none_left
    rw [rest_eq, wire_eq, List.length_nil, Nat.zero_add]

section
variable {layout : Layout} {source : Source} {properties : Properties} {sizes : List Nat}

/-- A decoder over a source holds what a single pass over its contents delivers. -/
theorem holds_source (sound : layout.Sound) (answers : source.Answers) (properties : Properties) :
    (seeded layout source properties).Holds
      (Supply.ofSource source.contents.failure source.contents.after)
      (layout.decodeOnce source.contents properties).1
        (layout.decodeOnce source.contents properties).2
      (layout.decodeOnce source.contents properties).2.delivered :=
  have holds : (Supply.ofSource source.contents.failure source.contents.after).Holds
    source.contents.wire source :=
    ⟨answers, rfl⟩
  holds_seeded sound holds properties

/-- What has been drained from a decoder that has come to its end. -/
theorem drain_reached (sound : layout.Sound) (answers : source.Answers)
    (positive : ∀ n ∈ sizes, 0 < n) {outcome : Except Error Unit}
    (reached : ((seeded layout source properties).drain sizes).outcome = some outcome) :
    let once := layout.decodeOnce source.contents properties
    let drained := (seeded layout source properties).drain sizes
    outcome = once.1 ∧ drained.bytes = once.2.delivered ∧
      drained.decoder.Spent (Supply.ofSource source.contents.failure source.contents.after) once.2
        once.1 := by
  intro once drained
  have spec := drain_spec (holds_source sound answers properties) positive
  rwa [reached] at spec

/-- A decoder comes to its end with more requests than it has bytes. -/
theorem drain_enough (sound : layout.Sound) (answers : source.Answers)
    (positive : ∀ n ∈ sizes, 0 < n) :
    let once := layout.decodeOnce source.contents properties
    let drained := (seeded layout source properties).drain sizes
    drained.bytes <+: once.2.delivered ∧
      (once.2.delivered.length < sizes.length → drained.outcome = some once.1) := by
  intro once drained
  have spec := drain_spec (holds_source sound answers properties) positive
  cases reached : drained.outcome with
  | none =>
    rw [reached] at spec
    refine ⟨spec.1, fun enough => ?_⟩
    have bound : drained.bytes.length ≤ once.2.delivered.length := spec.1.length_le
    have short : sizes.length ≤ drained.bytes.length := spec.2
    omega
  | some outcome =>
    rw [reached] at spec
    obtain ⟨rfl, bytes_eq, _⟩ := spec
    have all_read : drained.bytes ++ [] = once.2.delivered := (List.append_nil _).trans bytes_eq
    exact ⟨⟨[], all_read⟩, fun _ => rfl⟩

/-- A source behind a decoder that comes to its end without an error. -/
theorem drain_ok (sound : layout.Sound) (answers : source.Answers) (positive : ∀ n ∈ sizes, 0 < n)
    (ended : ((seeded layout source properties).drain sizes).outcome = some (.ok ())) :
    ∃ final, layout.decodeOnce source.contents properties = (.ok (), final) ∧
      ((seeded layout source properties).drain sizes).bytes = final.delivered ∧
      ((seeded layout source properties).drain sizes).decoder.source.rest =
        final.wire ++ source.contents.after := by
  obtain ⟨verdict, bytes_eq, spent⟩ := drain_reached sound answers positive ended
  rw [← verdict] at spent
  exact ⟨_, Prod.ext verdict.symm rfl, bytes_eq, Supply.ofSource_rest spent.2.2.2.holds⟩

end

/-- What is drained from a decoder is what a single pass over all that the source holds delivers,
whatever the pieces in which the bytes arrive, the interruptions between them and the requests that
the decoder is asked. -/
theorem drain_eq_decodeOnce {grammar : String} {layouts : List Layout}
    (compiled : compileSections grammar = .ok layouts) {layout : Layout}
    (member : layout ∈ layouts) (properties : Properties) {source : Source}
    (answers : source.Answers) {sizes : List Nat} (positive : ∀ n ∈ sizes, 0 < n) :
    let once := layout.decodeOnce source.contents properties
    let drained := (seeded layout source properties).drain sizes
    drained.bytes <+: once.2.delivered ∧
      (once.2.delivered.length < sizes.length → drained.outcome = some once.1) ∧
      ∀ outcome, drained.outcome = some outcome →
        outcome = once.1 ∧ drained.bytes = once.2.delivered ∧ drained.decoder.properties =
          once.2.properties ∧
          drained.decoder.source.left = once.2.contents.left := by
  intro once drained
  have sound := Layout.compileSections_sound compiled member
  obtain ⟨prefix_read, enough⟩ := @drain_enough _ _ properties _ sound answers positive
  refine ⟨prefix_read, enough, fun outcome reached => ?_⟩
  obtain ⟨verdict, bytes_eq, spent⟩ := drain_reached sound answers positive reached
  have after_eq : once.2.contents.after = source.contents.after :=
    (Pass.keeps_gaps layout.gaps { contents := source.contents, properties }).after
  have parted : Parted (Supply.ofSource source.contents.failure source.contents.after)
      drained.decoder.channel once.2 := by
    change drained.decoder.Spent _ once.2 once.1 at spent
    cases ended : once.1 with
    | ok =>
      rw [ended] at spent
      exact spent.2.2.2.parted
    | error e =>
      rw [ended] at spent
      exact spent.2
  exact ⟨verdict, bytes_eq, parted.properties, left_of_parted after_eq parted⟩

/-- Integers that take four bytes outside. -/
def paddedVector : Layout :=
  ⟨[⟨[320], .data ⟨.fromWire, .int16, .pad 4 true, .exchanged, "vector int16:4 *"⟩⟩],
    "vector int16:4 *"⟩

theorem compileSections_paddedVector : compileSections "vector int16:4 *" = .ok [paddedVector] :=
  @Layout.compileSections_single _ [⟨"", "vector", 0⟩, ⟨" ", "int16:4", 7⟩, ⟨" ", "*", 15⟩]
    [.data [320] ⟨.fromWire, .int16, .pad 4 true, .exchanged, "vector int16:4 *"⟩] rfl rfl

/-- Two such integers of which the second is torn, with an interruption and two bytes at a time. -/
def tornSource : Source :=
  ⟨[.bytes [2, 0, 0], .interruption, .bytes [0, 7, 0, 0, 0, 1], .failure .other "torn"], some 2⟩

theorem drain_tornSource :
    compileSections "vector int16:4 *" = .ok [paddedVector] ∧ tornSource.Answers ∧
      (∀ n ∈ List.replicate 20 3, 0 < n) ∧
      let drained := (seeded paddedVector tornSource {}).drain (List.replicate 20 3)
      drained.outcome = some (.error (.io "torn")) ∧
        drained.bytes = [64, 1, 0, 0, 2, 0, 0, 0, 7, 0] ∧
        drained.decoder.source.left = 0 := by
  have answers : tornSource.Answers := by simp [tornSource, Source.Answers]
  have positive : ∀ n ∈ List.replicate 20 3, 0 < n := by decide
  have once : paddedVector.decodeOnce tornSource.contents {} =
      (.error (.io "torn"),
        ⟨[64, 1, 0, 0, 2, 0, 0, 0, 7, 0], ⟨[], some (.device .other "torn"), []⟩, {}⟩) :=
    Prod.ext (by rfl) (by rfl)
  obtain ⟨_, enough, ended⟩ :=
    drain_eq_decodeOnce compileSections_paddedVector (List.mem_singleton.mpr rfl) {} answers
      positive
  rw [once] at enough ended
  have reached := enough (by decide)
  obtain ⟨_, bytes_eq, _, left⟩ := ended _ reached
  exact ⟨compileSections_paddedVector, answers, positive, reached, bytes_eq, left⟩

end Decoder

end TagWire
