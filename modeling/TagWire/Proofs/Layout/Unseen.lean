import TagWire.Proofs.Layout.Compiled
import TagWire.Proofs.Layout.Pruning

/-!
# Gaps of hidden fields

A hidden field makes gaps without tag words, and the words that wait in front of it wait behind it.
Fields without the hidden ones make the same gaps but these.

- `Gap.Unseen`: what is not part of the tagged message has no tag words.
- `Field.layOut_pruned`: the gaps of fields without the hidden ones.
- `Layout.compileSections_spelled`: the layout of a section without its hidden fields.
-/

namespace TagWire

/-- A gap that is missing in the tagged message has no tag words in it either. -/
def Gap.Unseen (g : Gap) : Prop := g.isHidden = true → g.words = []

/-- The gaps that are part of the tagged message. -/
def Gap.seen (gaps : List Gap) : List Gap := gaps.filter fun g => !g.isHidden

theorem Gap.seen_append (gaps others : List Gap) :
    seen (gaps ++ others) = seen gaps ++ seen others :=
  List.filter_append ..

namespace Field

/-- The gaps that are left of a field. -/
def seenGaps (waiting : List Word) (f : Field) : List Gap × List Word :=
  if f.isVisible then f.pruned.gaps waiting else ([], waiting)

/-- The gaps that are left are those of the tagged message, and the same words wait behind them. -/
def Leaves (made left : List Gap × List Word) : Prop :=
  (∀ g ∈ made.1, g.Unseen) ∧ left = (Gap.seen made.1, made.2)

theorem leaves_allGaps {fields : List Field}
    (each : ∀ f ∈ fields, ∀ waiting, Leaves (f.gaps waiting) (f.seenGaps waiting))
    (waiting : List Word) :
    Leaves (allGaps waiting fields) (allGaps waiting (allPruned fields)) := by
  induction fields generalizing waiting with
  | nil => exact ⟨fun g member => absurd member List.not_mem_nil, rfl⟩
  | cons f rest ih =>
    obtain ⟨unseen, left⟩ := each f List.mem_cons_self waiting
    obtain ⟨rest_unseen, rest_left⟩ :=
      ih (fun f member => each f (List.mem_cons_of_mem _ member)) (f.gaps waiting).2
    have first : allGaps waiting (allPruned (f :: rest)) =
        ((f.seenGaps waiting).1 ++ (allGaps (f.seenGaps waiting).2 (allPruned rest)).1,
          (allGaps (f.seenGaps waiting).2 (allPruned rest)).2) := by
      rw [allPruned, seenGaps]
      split <;> rfl
    refine ⟨fun g member => (List.mem_append.mp member).elim (unseen g) (rest_unseen g), ?_⟩
    rw [first, left, rest_left, allGaps]
    dsimp only
    rw [Gap.seen_append]

/-- A piece of data is left as it is, if it is visible. -/
theorem leaves_data (words : List Word) (p : Payload) (waiting : List Word) :
    Leaves (gaps waiting (.data words p)) (seenGaps waiting (.data words p)) := by
  have hidden_eq (words : List Word) : (Gap.mk words (.data p)).isHidden = p.use.isHidden := rfl
  cases hidden : p.use.isHidden with
  | true =>
    rw [gaps, if_pos hidden, seenGaps, isVisible, hidden]
    refine ⟨?_, ?_⟩
    · rintro g (_ | ⟨_, ⟨⟩⟩) -
      rfl
    · simp [Gap.seen, hidden_eq, hidden]
  | false =>
    rw [seenGaps, isVisible, hidden, pruned, gaps, hidden]
    refine ⟨?_, ?_⟩
    · rintro g (_ | ⟨_, ⟨⟩⟩) seen
      rw [hidden_eq, hidden] at seen
      cases seen
    · simp [Gap.seen, hidden_eq, hidden]

theorem allPruned_hidden {fields : List Field} (hidden : ∀ f ∈ fields, f.isVisible = false) :
    allPruned fields = [] := by
  induction fields with
  | nil => rfl
  | cons f rest ih =>
    obtain ⟨f_hidden, rest_hidden⟩ := List.forall_mem_cons.mp hidden
    rw [allPruned, f_hidden, if_neg (by decide), ih rest_hidden]

theorem leaves_gaps {item : Option Kind} {f : Field} (declared : f.Declared item)
    (waiting : List Word) : Leaves (f.gaps waiting) (f.seenGaps waiting) := by
  induction declared generalizing waiting with
  | derive =>
    refine ⟨?_, rfl⟩
    rintro g (_ | ⟨_, ⟨⟩⟩) -
    rfl
  | hidden | item | scalar | vector => exact leaves_data _ _ waiting
  | hiddenGroup _ hidden ih =>
    have leaves := leaves_allGaps ih waiting
    rw [allPruned_hidden hidden] at leaves
    rw [gaps, List.append_nil]
    exact leaves
  | group _ _ ih => exact leaves_allGaps ih _

/-- The gaps of a section without hidden fields are those of the tagged message. -/
theorem layOut_pruned {item : Option Kind} {fields : List Field}
    (declared : ∀ f ∈ fields, f.Declared item) (waiting : List Word) :
    (∀ g ∈ layOut waiting fields, g.Unseen) ∧
      layOut waiting (allPruned fields) = Gap.seen (layOut waiting fields) := by
  obtain ⟨unseen, left⟩ := leaves_allGaps (fun f member => leaves_gaps (declared f member)) waiting
  unfold layOut
  rw [left]
  dsimp only
  split
  · exact ⟨unseen, rfl⟩
  · refine ⟨fun g member => (List.mem_append.mp member).elim (unseen g) ?_, ?_⟩
    · rintro (_ | ⟨_, ⟨⟩⟩) seen
      cases seen
    · rw [Gap.seen_append]
      rfl

/-- Words that wait come before those of the fields. -/
def Precedes (made : List Word → List Gap × List Word) : Prop :=
  ∃ own, ∀ waiting, (made waiting).1.flatMap Gap.words ++ (made waiting).2 = waiting ++ own

theorem precedes_allGaps {fields : List Field} (each : ∀ f ∈ fields, Precedes fun w => f.gaps w) :
    Precedes fun waiting => allGaps waiting fields := by
  induction fields with
  | nil => exact ⟨[], fun waiting => by simp [allGaps]⟩
  | cons f rest ih =>
    obtain ⟨first, first_eq⟩ := each f List.mem_cons_self
    obtain ⟨others, others_eq⟩ := ih fun f member => each f (List.mem_cons_of_mem _ member)
    refine ⟨first ++ others, fun waiting => ?_⟩
    dsimp only [allGaps] at first_eq others_eq ⊢
    rw [List.flatMap_append, List.append_assoc, others_eq, ← List.append_assoc, first_eq,
      List.append_assoc]

theorem precedes_gaps {item : Option Kind} {f : Field} (declared : f.Declared item) :
    Precedes fun waiting => f.gaps waiting := by
  induction declared with
  | derive => exact ⟨[], fun waiting => by simp [gaps]⟩
  | hidden _ hidden => exact ⟨[], fun waiting => by simp [gaps, hidden]⟩
  | item _ visible | scalar _ visible => exact ⟨_, fun waiting => by simp [gaps, visible]; rfl⟩
  | vector _ exchanged => exact ⟨_, fun waiting => by simp [gaps, exchanged, Use.isHidden]; rfl⟩
  | hiddenGroup _ _ ih =>
    obtain ⟨own, own_eq⟩ := precedes_allGaps ih
    refine ⟨own, fun waiting => ?_⟩
    dsimp only [gaps]
    rw [List.append_nil]
    exact own_eq waiting
  | group _ _ ih =>
    obtain ⟨own, own_eq⟩ := precedes_allGaps ih
    exact ⟨_, fun waiting => (own_eq _).trans (List.append_assoc ..)⟩

/-- The tag words of a section come behind those in front of it. -/
theorem layOut_words {item : Option Kind} {fields : List Field}
    (declared : ∀ f ∈ fields, f.Declared item) (waiting : List Word) :
    (layOut waiting fields).flatMap Gap.words =
      waiting ++ (layOut [] fields).flatMap Gap.words := by
  obtain ⟨own, own_eq⟩ := precedes_allGaps fun f member => precedes_gaps (declared f member)
  have words (waiting : List Word) :
      (layOut waiting fields).flatMap Gap.words = waiting ++ own := by
    rw [← own_eq waiting, layOut]
    dsimp only
    split
    · rename_i none_left
      rw [none_left, List.append_nil]
    · rw [List.flatMap_append]
      simp
  rw [words, words, List.nil_append]

theorem countP_pruned (fields : List Field) :
    (allPruned fields).countP isVisible = fields.countP isVisible := by
  induction fields with
  | nil => rfl
  | cons f rest ih =>
    rw [allPruned]
    cases visible : f.isVisible with
    | true =>
      rw [if_pos rfl, List.countP_cons_of_pos (f.isVisible_pruned.trans visible),
        List.countP_cons_of_pos visible, ih]
    | false => rw [if_neg (by decide), List.countP_cons_of_neg (by simp [visible]), ih]

end Field

namespace Layout

open Token (Respelled)

theorem wrapping_pruned {tokens tokens' : List Token} (same : isWrapped tokens' = isWrapped tokens)
    (fields : List Field) : wrapping tokens' (Field.allPruned fields) = wrapping tokens fields := by
  rw [wrapping, wrapping, same, Field.countP_pruned]

/-- Gaps that are missing in the tagged message have no share in its tag words. -/
theorem words_seen {gaps : List Gap} (unseen : ∀ g ∈ gaps, g.Unseen) :
    (Gap.seen gaps).flatMap Gap.words = gaps.flatMap Gap.words := by
  induction gaps with
  | nil => rfl
  | cons g rest ih =>
    obtain ⟨g_unseen, rest_unseen⟩ := List.forall_mem_cons.mp unseen
    have ih := ih rest_unseen
    rw [Gap.seen] at ih ⊢
    rw [List.flatMap_cons, ← ih]
    cases hidden : g.isHidden with
    | true =>
      rw [List.filter_cons_of_neg (by simp [hidden]), g_unseen hidden]
      rfl
    | false => rw [List.filter_cons_of_pos (by simp [hidden]), List.flatMap_cons]

theorem template_words (gaps : List Gap) :
    gaps.flatMap Gap.template = (gaps.flatMap Gap.words).flatMap Word.toBytes :=
  List.flatMap_assoc.symm

theorem length_template (l : Layout) :
    l.template.length = 4 * (l.gaps.flatMap Gap.words).length := by
  rw [Layout.template, template_words]
  induction l.gaps.flatMap Gap.words with
  | nil => rfl
  | cons w rest ih =>
    rw [List.flatMap_cons, List.length_append, Word.length_toBytes, ih, List.length_cons]
    omega

/-- A section that has lost its containers is a list of its own, which it was not before. -/
theorem wrapping_length {tokens tokens' : List Token} (lost : isWrapped tokens' ≠ isWrapped tokens)
    (fields : List Field) :
    (wrapping tokens' (Field.allPruned fields)).length ≠ (wrapping tokens fields).length := by
  unfold wrapping
  cases wrapped : isWrapped tokens <;> cases wrapped' : isWrapped tokens' <;>
    simp_all

/-- What is left of a section has the gaps of the tagged message, unless it has lost its
containers. -/
theorem ofFields_withoutHidden {tokens tokens' : List Token} (silent : (readFields tokens).2 = [])
    (spelled : Respelled (withoutHidden tokens) tokens') :
    (∀ g ∈ (ofFields tokens (readFields tokens).1).gaps, g.Unseen) ∧
      (isWrapped tokens' = isWrapped tokens → (ofFields tokens' (readFields tokens').1).gaps =
        Gap.seen (ofFields tokens (readFields tokens).1).gaps) ∧
      (isWrapped tokens' ≠ isWrapped tokens → (ofFields tokens' (readFields tokens').1).template ≠
        (ofFields tokens (readFields tokens).1).template) := by
  have declared := (readFields_reads silent).1.declared
  rw [readFields_withoutHidden silent spelled]
  generalize (readFields tokens).1 = fields at declared
  refine ⟨(Field.layOut_pruned declared _).1, fun same => ?_, fun lost same => ?_⟩
  · rw [ofFields, ofFields, wrapping_pruned same]
    exact (Field.layOut_pruned declared _).2
  · have lengths := congrArg List.length same
    rw [length_template, length_template, ofFields, ofFields] at lengths
    have pruned := Field.layOut_pruned declared (wrapping tokens' (Field.allPruned fields))
    rw [pruned.2, words_seen pruned.1, Field.layOut_words declared,
      Field.layOut_words declared (wrapping tokens fields), List.length_append,
      List.length_append] at lengths
    exact wrapping_length lost fields (by omega)

/-- The layout of what is left of a section, spelled as a grammar. It has the gaps and the template
of the tagged message, unless the section has lost its containers. -/
theorem compileSections_spelled {grammar : String} {layouts : List Layout}
    (compiled : compileSections grammar = .ok layouts) {tokens : List Token} {layout : Layout}
    (paired : (tokens, layout) ∈ (Token.sections (Token.scan grammar)).zip layouts) :
    ∃ layout', compileSections (Token.spell (withoutHidden tokens)) = .ok [layout'] ∧
      layout'.grammar = Token.spell (withoutHidden tokens) ∧ (∀ g ∈ layout.gaps, g.Unseen) ∧
      (layout'.gaps = Gap.seen layout.gaps ↔ isWrapped (withoutHidden tokens) = isWrapped tokens) ∧
      (layout'.template = layout.template ↔
        isWrapped (withoutHidden tokens) = isWrapped tokens) := by
  obtain ⟨_, rfl, silent⟩ := compileSections_paired compiled paired
  obtain ⟨divided, spelled⟩ := Token.sections_spell (List.of_mem_zip paired).1
    (withoutHidden_sublist tokens silent)
  obtain ⟨unseen, left, lost⟩ := ofFields_withoutHidden silent spelled
  rw [← Token.isWrapped_of_texts spelled.1] at left lost
  have read := readFields_withoutHidden silent spelled
  have grammar_eq := spelled.spell_eq
  generalize again_eq : Token.scan (Token.spell (withoutHidden tokens)) = again
    at divided left lost read grammar_eq
  have compiled' : compileSections (Token.spell (withoutHidden tokens)) =
      .ok [ofFields again (readFields again).1] :=
    compileSections_single (again_eq ▸ divided) (by rw [read])
  replace grammar_eq : (ofFields again (readFields again).1).grammar =
      Token.spell (withoutHidden tokens) := grammar_eq.symm
  generalize ofFields again _ = layout' at left lost compiled' grammar_eq
  generalize ofFields tokens _ = layout at unseen left lost
  have template (gaps : layout'.gaps = Gap.seen layout.gaps) :
      layout'.template = layout.template := by
    rw [Layout.template, Layout.template, gaps, template_words, template_words, words_seen unseen]
  have kept (same : layout'.template = layout.template) :
      isWrapped (withoutHidden tokens) = isWrapped tokens :=
    Decidable.byContradiction fun different => lost different same
  exact ⟨layout', compiled', grammar_eq, unseen, ⟨fun gaps => kept (template gaps), left⟩,
    ⟨kept, fun same => template (left same)⟩⟩

/-- A gap of a layout that is missing in the tagged message has no tag words. -/
theorem compileSections_unseen {grammar : String} {layouts : List Layout}
    (compiled : compileSections grammar = .ok layouts) {l : Layout} (member : l ∈ layouts) :
    ∀ g ∈ l.gaps, g.Unseen := by
  obtain ⟨silent, rfl⟩ := compileSections_ok.mp compiled
  obtain ⟨tokens, section_member, rfl⟩ := List.mem_map.mp member
  have reads := (readFields_reads (silent tokens section_member)).1
  exact (Field.layOut_pruned reads.declared (wrapping tokens (readFields tokens).1)).1

end Layout

end TagWire
