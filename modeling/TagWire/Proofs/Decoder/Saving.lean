import TagWire.Proofs.Decoder.Streaming
import TagWire.Proofs.Grammar.Directives
import TagWire.Proofs.Properties.Image

/-!
# What is saved

A pass never forgets a property, and leaves one for each gap that saves its data.

- `Pass.Retains`: a part of a pass that forgets nothing.
- `Pass.gaps_save`: the names that gaps save under.
- `Decoder.directives_kept`: the directives of a section are found in its layout, and what it asks to
  be saved is found behind each message.
-/

namespace TagWire

namespace Properties

/-- Every name in one bag is in the other. -/
def Within (p p' : Properties) : Prop :=
  ∀ name, (p.get? name).isSome = true → (p'.get? name).isSome = true

variable {p p' p'' : Properties}

theorem Within.refl (p : Properties) : p.Within p := fun _ found => found

theorem Within.trans (first : p.Within p') (further : p'.Within p'') : p.Within p'' :=
  fun name found => further name (first name found)

theorem within_put (p : Properties) (name : String) (value : Property) :
    p.Within (p.put name value) := by
  intro other found
  rw [get?_put]
  split
  · rfl
  · exact found

theorem found_put (p : Properties) (name : String) (value : Property) :
    ((p.put name value).get? name).isSome = true := by
  rw [get?_put, if_pos rfl]
  rfl

/-- What is worked out is added to what is there. -/
theorem within_derive {derivation : Derivation} (derived : p.derive derivation = .ok p') :
    p.Within p' := by
  cases derivation
  obtain ⟨_, _, _, _, _, geometry⟩ := Image.geometry_of_derive derived
  cases geometry.derive.symm.trans derived
  exact (within_put _ _ _).trans ((within_put _ _ _).trans
    ((within_put _ _ _).trans (within_put _ _ _)))

end Properties

namespace Pass

variable {α : Type}

/-- The part of the pass forgets no property. -/
def Retains (p : Pass α) : Prop := ∀ l : Ledger, l.properties.Within (p.run l).2.properties

theorem onward_retains : Onward fun l l' => l.properties.Within l'.properties where
  refl _ := .refl _
  trans := .trans
  delivers _ _ := .refl _
  takes _ _ := .refl _

theorem retains_gaps (gs : List Gap) : Retains (gaps gs) :=
  onward_retains.gaps fun _ _ => onward_retains.gap
    (fun _ _ _ _ _ _ => Properties.within_put _ _ _) fun _ _ _ _ _ => Properties.within_derive

/-- Data that is to be saved is found under its name. -/
theorem gap_saves {g : Gap} {name : String} (asked : g.directive? = some (.save name)) {l l' : Ledger}
    (run : (gap g).run l = (.ok (), l')) : (l'.properties.get? name).isSome = true := by
  unfold Gap.directive? at asked
  unfold gap at run
  cases content : g.content with
  | nothing | derivation => simp [content] at asked
  | data p =>
    rw [content] at asked run
    obtain ⟨_, l₁, _, run⟩ := bind_ok run
    have used : p.use = .saved name := by
      cases use : p.use <;> simp [use, Use.directive?] at asked
      rw [asked]
    rw [payload, used] at run
    obtain ⟨bytes, l₂, _, run⟩ := bind_ok run
    rw [used] at run
    cases run
    exact Properties.found_put _ _ _

/-- Behind gaps there is a property for each name that they save under. -/
theorem gaps_save {gs : List Gap} {name : String} {l l' : Ledger}
    (asked : .save name ∈ gs.filterMap Gap.directive?) (run : (gaps gs).run l = (.ok (), l')) :
    (l'.properties.get? name).isSome = true := by
  induction gs generalizing l with
  | nil => cases asked
  | cons g rest ih =>
    obtain ⟨_, l₁, first, further⟩ := bind_ok run
    obtain ⟨g', member, gives⟩ := List.mem_filterMap.mp asked
    rcases List.mem_cons.mp member with rfl | behind
    · have retained := retains_gaps rest l₁ name (gap_saves gives first)
      rwa [further] at retained
    · exact ih (List.mem_filterMap.mpr ⟨g', behind, gives⟩) further

end Pass

namespace Decoder

open Layout (Token compileSections)
open Grammar (Directive directives lasting)

/-- A decoder that has come to its end has the properties of the pass. -/
theorem drain_properties {layout : Layout} (sound : layout.Sound) {source : Source}
    (answers : source.Answers) {properties : Properties} {sizes : List Nat}
    (positive : ∀ n ∈ sizes, 0 < n)
    (ended : ((seeded layout source properties).drain sizes).outcome = some (.ok ())) :
    ∃ final, layout.decodeOnce source.contents properties = (.ok (), final) ∧
      ((seeded layout source properties).drain sizes).decoder.properties = final.properties := by
  obtain ⟨verdict, -, spent⟩ := drain_reached sound answers positive ended
  rw [← verdict] at spent
  exact ⟨_, Prod.ext verdict.symm rfl, spent.2.2.2.properties⟩

/-- What a section asks to be saved, loaded and computed is what the gaps of its layout do, in order
and under the same names. Behind a message that was drained there is a property for each name that
it was to be saved under. Only an item vector is not saved. -/
theorem directives_kept {grammar : String} {layouts : List Layout}
    (compiled : compileSections grammar = .ok layouts) :
    List.Forall₂ (fun words layout =>
      layout.gaps.filterMap Gap.directive? = lasting words ∧
        ∀ (properties : Properties) (source : Source) (sizes : List Nat), source.Answers →
          (∀ n ∈ sizes, 0 < n) →
          ((seeded layout source properties).drain sizes).outcome = some (.ok ()) →
            ∀ name, .save name ∈ lasting words →
              (((seeded layout source properties).drain sizes).decoder.properties.get? name).isSome =
                true)
      (Grammar.sections grammar) layouts := by
  obtain ⟨length, kept⟩ := List.forall₂_iff_zip.mp (Layout.compileSections_directives compiled)
  refine List.forall₂_iff_zip.mpr ⟨length, fun {words layout} paired => ?_⟩
  have same := kept paired
  refine ⟨same, fun properties source sizes answers positive ended name asked => ?_⟩
  have sound := Layout.compileSections_sound compiled (List.of_mem_zip paired).2
  obtain ⟨final, once, left⟩ := drain_properties sound answers positive ended
  rw [left]
  exact Pass.gaps_save (same ▸ asked) once

/-- An item vector that is to be saved, and an integer behind it that is. -/
def unsaved : Layout :=
  ⟨[⟨[], .data ⟨.fixed 1, .int32, .identity, .skipped, "item *"⟩⟩,
    ⟨[], .data ⟨.fixed 1, .int8, .identity, .saved "n", ">n int8 *"⟩⟩],
    ">x item_vector int32 1 item * >n int8 *"⟩

theorem compileSections_unsaved :
    compileSections ">x item_vector int32 1 item * >n int8 *" = .ok [unsaved] :=
  @Layout.compileSections_single _
    [⟨"", ">x", 0⟩, ⟨" ", "item_vector", 3⟩, ⟨" ", "int32", 15⟩, ⟨" ", "1", 21⟩, ⟨" ", "item", 23⟩,
      ⟨" ", "*", 28⟩, ⟨" ", ">n", 30⟩, ⟨" ", "int8", 33⟩, ⟨" ", "*", 38⟩]
    [.group true [] [.data [] ⟨.fixed 1, .int32, .identity, .skipped, "item *"⟩],
      .data [] ⟨.fixed 1, .int8, .identity, .saved "n", ">n int8 *"⟩] rfl rfl

theorem sections_unsaved :
    Grammar.sections ">x item_vector int32 1 item * >n int8 *" =
      [[">x", "item_vector", "int32", "1", "item", "*", ">n", "int8", "*"]] := by
  rw [← Token.text_sections_scan]
  rfl

def unsavedSource : Source := ⟨[.bytes [1, 0, 0, 0, 7]], none⟩

/-- The integer is found behind the message. The item vector is not, though it is asked for. -/
theorem drain_unsaved :
    compileSections ">x item_vector int32 1 item * >n int8 *" = .ok [unsaved] ∧
      Grammar.sections ">x item_vector int32 1 item * >n int8 *" =
        [[">x", "item_vector", "int32", "1", "item", "*", ">n", "int8", "*"]] ∧
      (directives [">x", "item_vector", "int32", "1", "item", "*", ">n", "int8", "*"]).map
        Prod.fst = [.save "x", .save "n"] ∧
      unsaved.gaps.filterMap Gap.directive? = [.save "n"] ∧ unsavedSource.Answers ∧
      ((seeded unsaved unsavedSource {}).drain [1]).outcome = some (.ok ()) ∧
      (((seeded unsaved unsavedSource {}).drain [1]).decoder.properties.get? "n").isSome = true ∧
      ((seeded unsaved unsavedSource {}).drain [1]).decoder.properties.get? "x" = none := by
  have answers : unsavedSource.Answers := by simp [unsavedSource, Source.Answers]
  have positive : ∀ n ∈ [1], 0 < n := by decide
  have sound := Layout.compileSections_sound compileSections_unsaved (List.mem_singleton.mpr rfl)
  have kept := directives_kept compileSections_unsaved
  rw [sections_unsaved, List.forall₂_cons] at kept
  have once : unsaved.decodeOnce unsavedSource.contents {} =
      (.ok (), ⟨[], ⟨[], none, []⟩, ⟨[("n", .int 7)]⟩⟩) := Prod.ext (by rfl) (by rfl)
  have ended : ((seeded unsaved unsavedSource {}).drain [1]).outcome = some (.ok ()) := by
    have enough := (@drain_enough _ _ {} _ sound answers positive).2
    rw [once] at enough
    exact enough (by decide)
  obtain ⟨final, once', left⟩ := drain_properties sound answers positive ended
  rw [once] at once'
  cases once'
  refine ⟨compileSections_unsaved, sections_unsaved, by rfl, by rfl, answers, ended, ?_, ?_⟩
  · exact kept.1.2 {} unsavedSource [1] answers positive ended "n" (by decide)
  · rw [left]
    rfl

end Decoder

end TagWire
