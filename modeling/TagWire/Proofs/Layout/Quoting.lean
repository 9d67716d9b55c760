import TagWire.Layout.Compile

/-!
# Quoted text

Layouts quote the text of the grammar that they were made from, for reports. Apart from what they
quote, layouts can be compared by putting something else in place of it.

- `Layout.quoting`: a layout with other quotations.
- `Field.layOut_quoting`: nothing but the quotations of its gaps depends on those of fields.
-/

namespace TagWire

variable (quote : String → String)

def Payload.quoting (p : Payload) : Payload := { p with origin := quote p.origin }

def Content.quoting : Content → Content
  | .nothing => .nothing
  | .derivation what origin => .derivation what (quote origin)
  | .data p => .data (p.quoting quote)

def Gap.quoting (g : Gap) : Gap := { g with content := g.content.quoting quote }

/-- The layout with other quotations: each text from the grammar as `quote` has it. -/
def Layout.quoting (l : Layout) : Layout := ⟨l.gaps.map (Gap.quoting quote), quote l.grammar⟩

theorem Gap.quoting_id (g : Gap) : g.quoting id = g := by
  obtain ⟨words, content⟩ := g
  cases content <;> rfl

theorem Layout.quoting_id (l : Layout) : l.quoting id = l := by
  have gaps : l.gaps.map (Gap.quoting id) = l.gaps := List.map_id'' Gap.quoting_id l.gaps
  simp [quoting, gaps]

/-- A template has no text from the grammar. -/
theorem Layout.template_quoting (l : Layout) : (l.quoting quote).template = l.template := by
  simp only [template, quoting, List.flatMap_map]
  rfl

namespace Field

mutual

/-- The field with other quotations. -/
def quoting : Field → Field
  | derive derivation origin => derive derivation (quote origin)
  | data words payload => data words (payload.quoting quote)
  | group isHidden words fields => group isHidden words (allQuoting fields)

def allQuoting : List Field → List Field
  | [] => []
  | field :: rest => field.quoting :: allQuoting rest

end

theorem isVisible_quoting (f : Field) : (f.quoting quote).isVisible = f.isVisible := by
  cases f <;> rfl

theorem allQuoting_append (fields others : List Field) :
    allQuoting quote (fields ++ others) = allQuoting quote fields ++ allQuoting quote others := by
  induction fields with
  | nil => rfl
  | cons f rest ih => simp [allQuoting, ih]

theorem countP_quoting (fields : List Field) :
    (allQuoting quote fields).countP isVisible = fields.countP isVisible := by
  induction fields with
  | nil => rfl
  | cons f rest ih => simp [allQuoting, List.countP_cons, isVisible_quoting, ih]

theorem data_quoting (waiting words : List Word) (p : Payload) :
    ((data words p).quoting quote).gaps waiting =
      (((data words p).gaps waiting).1.map (Gap.quoting quote), ((data words p).gaps waiting).2) := by
  have same : (p.quoting quote).use = p.use := rfl
  simp only [quoting, gaps, same]
  split <;> rfl

/-- A field and the fields behind it, which begin with the words that it leaves. -/
theorem cons_quoting {waiting : List Word} {f : Field} {rest : List Field}
    (first : (f.quoting quote).gaps waiting =
      ((f.gaps waiting).1.map (Gap.quoting quote), (f.gaps waiting).2))
    (others : allGaps (f.gaps waiting).2 (allQuoting quote rest) =
      ((allGaps (f.gaps waiting).2 rest).1.map (Gap.quoting quote),
        (allGaps (f.gaps waiting).2 rest).2)) :
    allGaps waiting (allQuoting quote (f :: rest)) =
      ((allGaps waiting (f :: rest)).1.map (Gap.quoting quote),
        (allGaps waiting (f :: rest)).2) := by
  simp only [allQuoting, allGaps, first, others, List.map_append]

mutual

theorem gaps_quoting (waiting : List Word) (f : Field) :
    (f.quoting quote).gaps waiting =
      ((f.gaps waiting).1.map (Gap.quoting quote), (f.gaps waiting).2) := by
  cases f with
  | derive derivation origin => rfl
  | data words p => exact data_quoting quote waiting words p
  | group isHidden words fields => exact allGaps_quoting (waiting ++ words) fields

theorem allGaps_quoting (waiting : List Word) (fields : List Field) :
    allGaps waiting (allQuoting quote fields) =
      ((allGaps waiting fields).1.map (Gap.quoting quote), (allGaps waiting fields).2) := by
  cases fields with
  | nil => rfl
  | cons f rest => exact cons_quoting quote (gaps_quoting waiting f) (allGaps_quoting _ rest)

end

theorem layOut_quoting (waiting : List Word) (fields : List Field) :
    layOut waiting (allQuoting quote fields) = (layOut waiting fields).map (Gap.quoting quote) := by
  simp only [layOut, allGaps_quoting]
  split
  · rfl
  · simp only [List.map_append]
    rfl

end Field

end TagWire
