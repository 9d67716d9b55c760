import TagWire.Proofs.Encoder.Recutting
import TagWire.Proofs.Layout.Unseen

/-!
# Fields that are only outside

Fields that are skipped, saved or computed have no part in the tagged message. Without them a
section has the same template and the other gaps, and an encoder does the same with every message.
It is not so where all containers of a section are in such fields: these keep it from being a list
of its own, and without them it is one.

- `Encoder.passGaps_seen`: a walk passes over the gaps of hidden fields.
- `Layout.compileSections_withoutHidden`: sections with and without hidden fields.
- `Layout.compileSections_hiddenVector`: a section that has lost its only vector.
-/

namespace TagWire

namespace Encoder

theorem passGap_hidden {g : Gap} (unseen : g.Unseen) (hidden : g.isHidden = true) :
    passGap g = pure () := by
  obtain ⟨words, content⟩ := g
  obtain rfl : words = [] := unseen hidden
  cases content with
  | nothing => cases hidden
  | derivation => rfl
  | data p =>
    have payload : passPayload ⟨[], .data p⟩ p = pure () := by
      change p.use.isHidden = true at hidden
      unfold passPayload
      cases use : p.use with
      | skipped | saved => rfl
      | exchanged | loaded => rw [use] at hidden; cases hidden
    exact payload

/-- The walk over a layout is the one over the gaps of the tagged message. -/
theorem passGaps_seen {gaps : List Gap} (unseen : ∀ g ∈ gaps, g.Unseen) :
    passGaps (Gap.seen gaps) = passGaps gaps := by
  induction gaps with
  | nil => rfl
  | cons g rest ih =>
    obtain ⟨g_unseen, rest_unseen⟩ := List.forall_mem_cons.mp unseen
    have ih := ih rest_unseen
    rw [Gap.seen] at ih ⊢
    cases hidden : g.isHidden with
    | true =>
      rw [List.filter_cons_of_neg (by simp [hidden]), ih, passGaps, passGap_hidden g_unseen hidden,
        pure_bind]
    | false => rw [List.filter_cons_of_pos (by simp [hidden]), passGaps, passGaps, ih]

end Encoder

namespace Layout

/-- A section without the fields that are skipped, saved or computed can be compiled as well. It has
the template of the section and its other gaps just if some container is left or there was none.
Then an encoder goes over every message in the same way, and puts out the same ranges and bytes;
reports name the other grammar where they name the grammar. -/
theorem compileSections_withoutHidden {grammar : String} {layouts : List Layout}
    (compiled : compileSections grammar = .ok layouts) {tokens : List Token} {layout : Layout}
    (paired : (tokens, layout) ∈ (Token.sections (Token.scan grammar)).zip layouts) :
    ∃ layout', compileSections (Token.spell (withoutHidden tokens)) = .ok [layout'] ∧
      layout'.grammar = Token.spell (withoutHidden tokens) ∧
      (layout'.gaps = layout.gaps.filter (fun g => !g.isHidden) ↔
        isWrapped (withoutHidden tokens) = isWrapped tokens) ∧
      (layout'.template = layout.template ↔ isWrapped (withoutHidden tokens) = isWrapped tokens) ∧
      (isWrapped (withoutHidden tokens) = isWrapped tokens → ∀ buffer : BlockBuffer,
        let e := (Encoder.start layout buffer).update
        let e' := (Encoder.start layout' buffer).update
        e'.isOk = e.isOk ∧ e'.segments = e.segments ∧ e'.scratch = e.scratch ∧
          e'.output = e.output ∧
          Option.Rel (Error.Renamed layout.grammar layout'.grammar) e.error e'.error) := by
  obtain ⟨layout', compiled', grammar_eq, unseen, gaps, template⟩ :=
    compileSections_spelled compiled paired
  refine ⟨layout', compiled', grammar_eq, gaps, template, fun kept buffer => ?_⟩
  have walk : Encoder.passGaps layout.gaps = Encoder.passGaps layout'.gaps := by
    rw [gaps.mpr kept, Encoder.passGaps_seen unseen]
  have alike := @Encoder.alike_update (Encoder.start layout buffer) (Encoder.start layout' buffer)
    walk rfl
  obtain ⟨-, latest, scratch⟩ := alike.ranges rfl
  refine ⟨?_, congrArg List.reverse latest.symm, scratch.symm, alike.output.symm, alike.error⟩
  rw [Encoder.isOk, Encoder.isOk, Bool.eq_iff_iff, Option.isNone_iff_eq_none,
    Option.isNone_iff_eq_none]
  exact alike.sound_iff.symm

def surveyTokens : List Token :=
  [⟨"", "list", 0⟩, ⟨" ", "2", 5⟩, ⟨" ", ">w", 7⟩, ⟨" ", "int32", 10⟩, ⟨" ", "*", 16⟩,
    ⟨" ", "int32", 18⟩, ⟨" ", "*", 24⟩, ⟨" ", "skip", 26⟩, ⟨" ", "list", 31⟩, ⟨" ", "1", 36⟩,
    ⟨" ", "vector", 38⟩, ⟨" ", "int8", 45⟩, ⟨" ", "*", 50⟩, ⟨" ", "string", 52⟩, ⟨" ", "*", 59⟩,
    ⟨" ", "compute", 61⟩, ⟨" ", "image_params", 69⟩]

/-- An integer and a string, with fields of every kind that is only outside around them. -/
def survey : Layout where
  gaps :=
    [⟨[], .data ⟨.fixed 1, .int32, .identity, .saved "w", ">w int32 *"⟩⟩,
      ⟨[256, 2, 1], .data ⟨.fixed 1, .int32, .identity, .exchanged, "int32 *"⟩⟩,
      ⟨[], .data ⟨.fromWire, .int8, .identity, .skipped, "vector int8 *"⟩⟩,
      ⟨[4], .data ⟨.fixed 1, .string, .identity, .exchanged, "string *"⟩⟩,
      ⟨[], .derivation .imageParams "compute image_params"⟩]
  grammar :=
    "list 2 >w int32 * int32 * skip list 1 vector int8 * string * compute image_params"

theorem compileSections_survey :
    compileSections
      "list 2 >w int32 * int32 * skip list 1 vector int8 * string * compute image_params" =
        .ok [survey] :=
  @compileSections_single _ surveyTokens
    [.group false [256, 2]
      [.data [] ⟨.fixed 1, .int32, .identity, .saved "w", ">w int32 *"⟩,
        .data [1] ⟨.fixed 1, .int32, .identity, .exchanged, "int32 *"⟩,
        .group true []
          [.data [] ⟨.fromWire, .int8, .identity, .skipped, "vector int8 *"⟩],
        .data [4] ⟨.fixed 1, .string, .identity, .exchanged, "string *"⟩],
      .derive .imageParams "compute image_params"] rfl rfl

theorem withoutHidden_survey : withoutHidden surveyTokens =
    [⟨"", "list", 0⟩, ⟨" ", "2", 5⟩, ⟨" ", "int32", 18⟩, ⟨" ", "*", 24⟩, ⟨" ", "string", 52⟩,
      ⟨" ", "*", 59⟩] := rfl

/-- An integer and a string in two blocks, with a byte too many behind them. -/
def longSurvey : BlockBuffer :=
  ⟨[], [[0, 1, 0, 0, 2, 0, 0, 0, 1, 0, 0, 0, 7, 0, 0, 0, 4, 0], [0, 0, 2, 0, 0, 0, 104, 105, 9]]⟩

theorem withoutHidden_surveyed :
    compileSections
      "list 2 >w int32 * int32 * skip list 1 vector int8 * string * compute image_params" =
        .ok [survey] ∧
      (surveyTokens, survey) ∈ (Token.sections (Token.scan
        "list 2 >w int32 * int32 * skip list 1 vector int8 * string * compute image_params")).zip
          [survey] ∧
      isWrapped (withoutHidden surveyTokens) = isWrapped surveyTokens ∧
      ∃ layout', compileSections "list 2 int32 * string *" = .ok [layout'] ∧
        layout'.gaps = survey.gaps.filter (fun g => !g.isHidden) ∧
        layout'.template = [0, 1, 0, 0, 2, 0, 0, 0, 1, 0, 0, 0, 4, 0, 0, 0] ∧
        (Encoder.start survey longSurvey).update.error =
          some (.mismatch "end of message" "1 more bytes" survey.grammar) ∧
        (Encoder.start layout' longSurvey).update.isOk = false ∧
        (Encoder.start layout' longSurvey).update.output = [7, 0, 0, 0, 2, 0, 0, 0, 104, 105] := by
  have paired : (surveyTokens, survey) ∈ (Token.sections (Token.scan
      "list 2 >w int32 * int32 * skip list 1 vector int8 * string * compute image_params")).zip
        [survey] := List.mem_singleton.mpr rfl
  have kept : isWrapped (withoutHidden surveyTokens) = isWrapped surveyTokens := by
    rw [withoutHidden_survey]
    decide
  have reported : (Encoder.start survey longSurvey).update.error =
      some (.mismatch "end of message" "1 more bytes" survey.grammar) := by decide +kernel
  have put_out : (Encoder.start survey longSurvey).update.output =
      [7, 0, 0, 0, 2, 0, 0, 0, 104, 105] := by decide +kernel
  obtain ⟨layout', compiled', -, gaps, template, runs⟩ :=
    compileSections_withoutHidden compileSections_survey paired
  obtain ⟨ok, -, -, output, -⟩ := runs kept longSurvey
  rw [withoutHidden_survey] at compiled'
  refine ⟨compileSections_survey, paired, kept, layout', compiled', gaps.mpr kept, ?_, reported,
    ?_, output.trans put_out⟩
  · rw [template.mpr kept]
    rfl
  · rw [ok, Encoder.isOk, reported]
    rfl

/-- An integer, with a vector behind it that is only outside. -/
def hiddenVector : Layout where
  gaps :=
    [⟨[1], .data ⟨.fixed 1, .int32, .identity, .exchanged, "int32 *"⟩⟩,
      ⟨[], .data ⟨.fixed 2, .int8, .identity, .skipped, "skip vector int8 2 *"⟩⟩]
  grammar := "int32 * skip vector int8 2 *"

def listedInteger : Layout :=
  ⟨[⟨[256, 1, 1], .data ⟨.fixed 1, .int32, .identity, .exchanged, "int32 *"⟩⟩], "int32 *"⟩

/-- Without the vector that is only outside, the section is a list of its own. Messages that an
encoder accepts then are rejected before. -/
theorem compileSections_hiddenVector :
    compileSections "int32 * skip vector int8 2 *" = .ok [hiddenVector] ∧
      (Token.sections (Token.scan "int32 * skip vector int8 2 *")).map
        (fun tokens => Token.spell (withoutHidden tokens)) = ["int32 *"] ∧
      compileSections "int32 *" = .ok [listedInteger] ∧
      hiddenVector.template = [1, 0, 0, 0] ∧
      listedInteger.template = [0, 1, 0, 0, 1, 0, 0, 0, 1, 0, 0, 0] ∧
      (Encoder.start listedInteger
        ⟨[], [[0, 1, 0, 0, 1, 0, 0, 0, 1, 0, 0, 0, 5, 0, 0, 0]]⟩).update.isOk = true ∧
      (Encoder.start hiddenVector
        ⟨[], [[0, 1, 0, 0, 1, 0, 0, 0, 1, 0, 0, 0, 5, 0, 0, 0]]⟩).update.isOk = false := by
  refine ⟨?_, rfl, ?_, rfl, rfl, by decide +kernel, by decide +kernel⟩
  · exact @compileSections_single _
      [⟨"", "int32", 0⟩, ⟨" ", "*", 6⟩, ⟨" ", "skip", 8⟩, ⟨" ", "vector", 13⟩, ⟨" ", "int8", 20⟩,
        ⟨" ", "2", 25⟩, ⟨" ", "*", 27⟩]
      [.data [1] ⟨.fixed 1, .int32, .identity, .exchanged, "int32 *"⟩,
        .data [] ⟨.fixed 2, .int8, .identity, .skipped, "skip vector int8 2 *"⟩] rfl rfl
  · exact @compileSections_single _ [⟨"", "int32", 0⟩, ⟨" ", "*", 6⟩]
      [.data [1] ⟨.fixed 1, .int32, .identity, .exchanged, "int32 *"⟩] rfl rfl

end Layout

end TagWire
