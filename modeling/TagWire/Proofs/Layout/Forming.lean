import TagWire.Proofs.Encoder.Fields
import TagWire.Proofs.Layout.Compiled

/-!
# The gaps of grammars

A gap announces lists with their lengths, and then its data. Only a vector whose length is told outside
leaves its length to the data. What is hidden is not announced at all.

- `Payload.Announced`: the tag words in front of data.
- `Gap.Formed`: the gaps that a grammar can make.
- `Layout.compileSections_formed`: the gaps of compiled layouts.
-/

namespace TagWire

open Word (Heads)

/-- The tag words in front of data: lists with their lengths, and the word of the data. The length of a
vector is the last word, or is told by the data. -/
inductive Payload.Announced (p : Payload) : List Word → Prop
  | item {heads} (known : Heads heads) (single : p.count = .fixed 1) : Announced p heads
  | scalar {heads} (known : Heads heads) (single : p.count = .fixed 1) :
      Announced p (heads ++ [Word.ofKind p.kind])
  | vector {heads n} (known : Heads heads) (exchanged : p.use = .exchanged)
      (fixed : p.count = .fixed n) :
      Announced p (heads ++ [Word.ofList (some p.kind), Word.ofTag n])
  | told {heads} (known : Heads heads) (exchanged : p.use = .exchanged)
      (counted : p.count = .fromWire) :
      Announced p (heads ++ [Word.ofList (some p.kind)])

/-- The gaps that a grammar can make. -/
inductive Gap.Formed : Gap → Prop
  | bare {words} (known : Heads words) : Formed ⟨words, .nothing⟩
  | derivation (derivation : Derivation) (origin : String) : Formed ⟨[], .derivation derivation origin⟩
  | hidden {p : Payload} (sound : p.Sound) (hidden : p.use.isHidden = true) : Formed ⟨[], .data p⟩
  | visible {p : Payload} {words} (sound : p.Sound) (visible : p.use.isHidden = false)
      (announced : p.Announced words) : Formed ⟨words, .data p⟩

namespace Field

/-- A field makes gaps that are well formed, and leaves lists with their lengths waiting. -/
def FormedGaps (made : List Gap × List Word) : Prop := (∀ g ∈ made.1, g.Formed) ∧ Heads made.2

theorem formed_allGaps {fields : List Field}
    (each : ∀ f ∈ fields, ∀ waiting, Heads waiting → FormedGaps (f.gaps waiting))
    {waiting : List Word} (known : Heads waiting) : FormedGaps (allGaps waiting fields) := by
  induction fields generalizing waiting with
  | nil => exact ⟨List.forall_mem_nil _, known⟩
  | cons f rest ih =>
    obtain ⟨first, further⟩ := List.forall_mem_cons.mp each
    obtain ⟨formed, known'⟩ := first waiting known
    obtain ⟨formed', known''⟩ := ih further known'
    exact ⟨List.forall_mem_append.mpr ⟨formed, formed'⟩, known''⟩

theorem formed_hidden {own : List Word} {p : Payload} (sound : p.Sound)
    (hidden : p.use.isHidden = true) {waiting : List Word} (known : Heads waiting) :
    FormedGaps (gaps waiting (.data own p)) := by
  rw [gaps, if_pos hidden]
  exact ⟨List.forall_mem_singleton.mpr (.hidden sound hidden), known⟩

theorem formed_visible {own : List Word} {p : Payload} (sound : p.Sound)
    (visible : p.use.isHidden = false) {waiting : List Word} (announced : p.Announced (waiting ++ own)) :
    FormedGaps (gaps waiting (.data own p)) := by
  rw [gaps, if_neg (by simp [visible])]
  exact ⟨List.forall_mem_singleton.mpr (.visible sound visible announced), .nil⟩

theorem formed_gaps {item : Option Kind} {f : Field} (declared : f.Declared item)
    {waiting : List Word} (known : Heads waiting) : FormedGaps (f.gaps waiting) := by
  induction declared generalizing waiting with
  | derive derivation origin =>
    exact ⟨List.forall_mem_singleton.mpr (.derivation derivation origin), known⟩
  | hidden sound hidden => exact formed_hidden sound hidden known
  | item sound visible single =>
    refine formed_visible sound visible ?_
    rw [List.append_nil]
    exact .item known single
  | scalar sound visible single => exact formed_visible sound visible (.scalar known single)
  | @vector _ p sound exchanged =>
    have visible : p.use.isHidden = false := by rw [exchanged]; rfl
    refine formed_visible sound visible ?_
    cases counted : p.count with
    | fixed n => exact .vector known exchanged counted
    | fromWire => exact .told known exchanged counted
  | hiddenGroup _ _ ih =>
    rw [gaps, List.append_nil]
    exact formed_allGaps (fun f member waiting => ih f member) known
  | @group _ shared fields _ _ ih =>
    have words := known.append (.cons shared (Word.ofTag (fields.countP isVisible)) .nil)
    exact formed_allGaps (fun f member waiting => ih f member) words

theorem formed_layOut {item : Option Kind} {fields : List Field}
    (declared : ∀ f ∈ fields, f.Declared item) {waiting : List Word} (known : Heads waiting) :
    ∀ g ∈ layOut waiting fields, g.Formed := by
  obtain ⟨formed, known'⟩ :=
    formed_allGaps (fun f member waiting => formed_gaps (declared f member)) known
  unfold layOut
  dsimp only
  split
  · exact formed
  · exact List.forall_mem_append.mpr ⟨formed, List.forall_mem_singleton.mpr (.bare known')⟩

end Field

namespace Layout

theorem heads_wrapping (tokens : List Token) (fields : List Field) :
    Heads (wrapping tokens fields) := by
  unfold wrapping
  split
  · exact .cons none _ .nil
  · exact .nil

/-- The gaps of a compiled layout are well formed. -/
theorem compileSections_formed {grammar : String} {layouts : List Layout}
    (h : compileSections grammar = .ok layouts) {l : Layout} (member : l ∈ layouts) :
    ∀ g ∈ l.gaps, g.Formed := by
  obtain ⟨silent, rfl⟩ := compileSections_ok.mp h
  obtain ⟨tokens, section_member, rfl⟩ := List.mem_map.mp member
  have reads := (readFields_reads (silent tokens section_member)).1
  exact Field.formed_layOut reads.declared (heads_wrapping tokens (readFields tokens).1)

end Layout

end TagWire
