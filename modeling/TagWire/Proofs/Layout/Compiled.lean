import TagWire.Proofs.Layout.Parsing

/-!
# Compiled layouts

What is sure of the gaps of a layout that a grammar gives.

- `Field.forall_layOut`: what holds of all gaps of a section.
- `Field.sound_gaps`: the data of the gaps of a declared field.
- `compileSections_paired`: the layouts of a grammar and its sections.
- `compileSections_sound`: a layout of a grammar is sound.
-/

namespace TagWire

namespace Field

/-- What holds of the gaps of each field holds of the gaps of all of them. -/
theorem forall_allGaps {P : Gap → Prop} {fields : List Field}
    (each : ∀ f ∈ fields, ∀ waiting, ∀ g ∈ (f.gaps waiting).1, P g) (waiting : List Word) :
    ∀ g ∈ (allGaps waiting fields).1, P g := by
  induction fields generalizing waiting with
  | nil => exact fun g member => absurd member List.not_mem_nil
  | cons f rest ih =>
    intro g member
    rcases List.mem_append.mp member with inside | behind
    · exact each f List.mem_cons_self waiting g inside
    · exact ih (fun f member => each f (List.mem_cons_of_mem _ member)) _ g behind

/-- The gaps of a section are those of its fields, and perhaps one of words alone. -/
theorem forall_layOut {P : Gap → Prop} {fields : List Field} (bare : ∀ words, P ⟨words, .nothing⟩)
    (each : ∀ f ∈ fields, ∀ waiting, ∀ g ∈ (f.gaps waiting).1, P g) (waiting : List Word) :
    ∀ g ∈ layOut waiting fields, P g := by
  have all := forall_allGaps each waiting
  unfold layOut
  dsimp only
  split
  · exact all
  · intro g member
    rcases List.mem_append.mp member with inside | behind
    · exact all g inside
    · rw [List.mem_singleton.mp behind]
      exact bare _

/-- The data of gaps is such as a grammar can declare. -/
def SoundGaps (gaps : List Gap) : Prop := ∀ g ∈ gaps, ∀ p, g.payload? = some p → p.Sound

theorem SoundGaps.single {words : List Word} {p : Payload} (sound : p.Sound) :
    SoundGaps [⟨words, .data p⟩] := by
  rintro g (_ | ⟨_, ⟨⟩⟩) _ ⟨rfl⟩
  exact sound

theorem SoundGaps.bare {words : List Word} {content : Content} (no_data : ∀ p, content ≠ .data p) :
    SoundGaps [⟨words, content⟩] := by
  rintro g (_ | ⟨_, ⟨⟩⟩) p data
  cases content with
  | nothing | derivation => cases data
  | data p => exact absurd rfl (no_data p)

theorem sound_gaps {item : Option Kind} {f : Field} (declared : f.Declared item)
    (waiting : List Word) :
    SoundGaps (f.gaps waiting).1 := by
  induction declared generalizing waiting with
  | derive => exact .bare fun _ same => by cases same
  | hidden sound hidden =>
    rw [gaps, if_pos hidden]
    exact .single sound
  | item sound visible | scalar sound visible =>
    rw [gaps, if_neg (by simp [visible])]
    exact .single sound
  | vector sound exchanged =>
    rw [gaps, exchanged, if_neg (by simp [Use.isHidden])]
    exact .single sound
  | hiddenGroup _ _ ih | group _ _ ih => exact forall_allGaps ih _

theorem sound_layOut {item : Option Kind} {fields : List Field}
    (declared : ∀ f ∈ fields, f.Declared item) (waiting : List Word) :
    SoundGaps (layOut waiting fields) :=
  forall_layOut (fun _ p data => by cases data) (fun f member => sound_gaps (declared f member))
    waiting

end Field

namespace Layout

/-- Each layout is made of what was read from the section in its place. -/
theorem compileSections_paired {grammar : String} {layouts : List Layout}
    (compiled : compileSections grammar = .ok layouts) {tokens : List Token} {layout : Layout}
    (paired : (tokens, layout) ∈ (Token.sections (Token.scan grammar)).zip layouts) :
    layout ∈ layouts ∧ layout = ofFields tokens (readFields tokens).1 ∧
      (readFields tokens).2 = [] := by
  obtain ⟨section_member, member⟩ := List.of_mem_zip paired
  obtain ⟨silent, rfl⟩ := compileSections_ok.mp compiled
  refine ⟨member, ?_, silent tokens section_member⟩
  have zipped (sections : List (List Token)) (f : List Token → Layout) :
      sections.zip (sections.map f) = sections.map fun tokens => (tokens, f tokens) := by
    induction sections with
    | nil => rfl
    | cons tokens rest ih => rw [List.map_cons, List.map_cons, List.zip_cons_cons, ih]
  rw [zipped] at paired
  obtain ⟨_, _, pair_eq⟩ := List.mem_map.mp paired
  cases pair_eq
  rfl

theorem compileSections_sound {grammar : String} {layouts : List Layout}
    (h : compileSections grammar = .ok layouts) {l : Layout} (member : l ∈ layouts) : l.Sound := by
  obtain ⟨silent, rfl⟩ := compileSections_ok.mp h
  obtain ⟨tokens, section_member, rfl⟩ := List.mem_map.mp member
  have reads := (readFields_reads (silent tokens section_member)).1
  exact Field.sound_layOut reads.declared (wrapping tokens (readFields tokens).1)

end Layout

end TagWire
