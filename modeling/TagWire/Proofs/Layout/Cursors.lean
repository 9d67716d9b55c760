import TagWire.Layout.Compile

/-!
# Places by two cursors

The template of a section can be written word by word while its fields are gone through. One cursor is at
its end, and one, the mark, behind the words that belong to gaps. A gap that is not hidden is placed from
the mark to the end. The length of a section that is a list of its own is written at last.

- `Cursor.field`, `Cursor.compile`: templates and places made in this way.
- `Cursor.compile_placed`: they are those of the layout.
-/

namespace TagWire

open Layout (Token placeFrom isWrapped ofFields wrapping)

/-- A template that is written, with the gaps that have been placed in it. -/
structure Cursor where
  words : List Word := []
  /-- The number of words that belong to gaps. -/
  mark : Nat := 0
  gaps : List (Content × Nat × Nat) := []
  deriving DecidableEq, Repr

namespace Cursor

/-- Places a gap without tag words. -/
def placeHidden (c : Cursor) (content : Content) : Cursor :=
  { c with gaps := c.gaps ++ [(content, 4 * c.mark, 4 * c.mark)] }

/-- Places a gap over all words behind the mark. -/
def place (c : Cursor) (content : Content) : Cursor :=
  { c with
    mark := c.words.length
    gaps := c.gaps ++ [(content, 4 * c.mark, 4 * c.words.length)] }

def write (c : Cursor) (words : List Word) : Cursor := { c with words := c.words ++ words }

mutual

/-- Goes through a field. -/
def field (c : Cursor) : Field → Cursor
  | .derive derivation origin => c.placeHidden (.derivation derivation origin)
  | .data words payload =>
    if payload.use.isHidden then c.placeHidden (.data payload)
    else (c.write words).place (.data payload)
  | .group _ words fields => (c.write words).fields fields

def fields (c : Cursor) : List Field → Cursor
  | [] => c
  | first :: rest => (c.field first).fields rest

end

/-- Places the words that are left in a gap of their own. -/
def close (c : Cursor) : Cursor := if c.mark < c.words.length then c.place .nothing else c

/-- Writes the length of the list that a section is. -/
def patch (c : Cursor) (length : Word) : Cursor := { c with words := c.words.set 1 length }

/-- Goes through a whole section. -/
def compile (tokens : List Token) (fields : List Field) : Cursor :=
  if isWrapped tokens then
    let visible := min (fields.countP Field.isVisible) 0x7fffffff
    ((({} : Cursor).write [Word.ofList none, 0]).fields fields).patch (Word.ofTag visible) |>.close
  else (({} : Cursor).fields fields).close

def template (c : Cursor) : Bytes := c.words.flatMap Word.toBytes

section
variable {c : Cursor} {length : Word}

theorem patch_write (written : 1 < c.words.length) (words : List Word) :
    (c.patch length).write words = (c.write words).patch length := by
  rw [patch, patch, write, write, List.set_append_left _ _ written]

theorem patch_place (content : Content) :
    (c.patch length).place content = (c.place content).patch length := by
  simp [patch, place]

end

mutual

/-- The length may be written before or behind a field. -/
theorem patch_field {c : Cursor} (written : 1 < c.words.length) (length : Word) (f : Field) :
    1 < (c.field f).words.length ∧ (c.patch length).field f = (c.field f).patch length := by
  have longer (words : List Word) : 1 < (c.write words).words.length := by
    rw [write, List.length_append]
    omega
  cases f with
  | derive => exact ⟨written, rfl⟩
  | data words payload =>
    rw [field, field]
    split
    · exact ⟨written, rfl⟩
    · rw [patch_write written, patch_place]
      exact ⟨longer words, rfl⟩
  | group _ words fields =>
    rw [field, field, patch_write written]
    exact patch_fields (longer words) length fields

theorem patch_fields {c : Cursor} (written : 1 < c.words.length) (length : Word) (fs : List Field) :
    1 < (c.fields fs).words.length ∧ (c.patch length).fields fs = (c.fields fs).patch length := by
  cases fs with
  | nil => exact ⟨written, rfl⟩
  | cons first rest =>
    obtain ⟨written', same⟩ := patch_field written length first
    rw [fields, fields, same]
    exact patch_fields written' length rest

end

/-- The cursors behind gaps, with words that wait for the next one. -/
def behind (made : List Gap) (waiting : List Word) : Cursor where
  words := made.flatMap Gap.words ++ waiting
  mark := (made.flatMap Gap.words).length
  gaps := (placeFrom 0 made).map fun (g, place) => (g.content, place)

theorem placeFrom_append (start : Nat) (gaps others : List Gap) :
    placeFrom start (gaps ++ others) =
      placeFrom start gaps ++ placeFrom (start + 4 * (gaps.flatMap Gap.words).length) others := by
  induction gaps generalizing start with
  | nil => rfl
  | cons g rest ih =>
    rw [List.cons_append, placeFrom, placeFrom, ih, List.flatMap_cons, List.length_append,
      List.cons_append, Nat.mul_add, Nat.add_assoc]

theorem behind_push (made : List Gap) (g : Gap) (waiting : List Word) :
    behind (made ++ [g]) waiting =
      { words := made.flatMap Gap.words ++ g.words ++ waiting
        mark := (made.flatMap Gap.words ++ g.words).length
        gaps := (behind made []).gaps ++ [(g.content, 4 * (made.flatMap Gap.words).length,
          4 * (made.flatMap Gap.words ++ g.words).length)] } := by
  simp [behind, placeFrom_append, placeFrom, Nat.mul_add]

theorem placeHidden_behind (made : List Gap) (waiting : List Word) (content : Content) :
    (behind made waiting).placeHidden content = behind (made ++ [⟨[], content⟩]) waiting := by
  rw [behind_push, List.append_nil]
  rfl

theorem place_behind (made : List Gap) (waiting : List Word) (content : Content) :
    (behind made waiting).place content = behind (made ++ [⟨waiting, content⟩]) [] := by
  rw [behind_push, List.append_nil]
  rfl

theorem write_behind (made : List Gap) (waiting words : List Word) :
    (behind made waiting).write words = behind made (waiting ++ words) := by
  simp [behind, write]

mutual

/-- Behind a field are its gaps, and the words that wait behind it. -/
theorem field_behind (made : List Gap) (waiting : List Word) (f : Field) :
    (behind made waiting).field f = behind (made ++ (f.gaps waiting).1) (f.gaps waiting).2 := by
  cases f with
  | derive derivation origin => exact placeHidden_behind made waiting _
  | data words payload =>
    rw [field, Field.gaps]
    split
    · exact placeHidden_behind made waiting _
    · rw [write_behind]
      exact place_behind made _ _
  | group _ words fields =>
    rw [field, Field.gaps, write_behind]
    exact fields_behind made _ fields

theorem fields_behind (made : List Gap) (waiting : List Word) (fs : List Field) :
    (behind made waiting).fields fs =
      behind (made ++ (Field.allGaps waiting fs).1) (Field.allGaps waiting fs).2 := by
  cases fs with
  | nil =>
    rw [Field.allGaps, List.append_nil]
    rfl
  | cons first rest =>
    rw [fields, field_behind, fields_behind, Field.allGaps]
    simp

end

theorem close_behind (waiting : List Word) (fs : List Field) :
    (behind (Field.allGaps waiting fs).1 (Field.allGaps waiting fs).2).close =
      behind (Field.layOut waiting fs) [] := by
  unfold Field.layOut
  generalize Field.allGaps waiting fs = made
  obtain ⟨gaps, left⟩ := made
  dsimp only
  by_cases none_left : left = []
  · rw [if_pos none_left, none_left]
    exact if_neg (by simp [behind])
  · have some_behind : (behind gaps left).mark < (behind gaps left).words.length := by
      simp [behind, List.length_pos_iff.mpr none_left]
    rw [if_neg none_left, close, if_pos some_behind, place_behind]

/-- The template and the places are those of the layout. -/
theorem compile_placed (tokens : List Token) (fields : List Field) :
    (compile tokens fields).template = (ofFields tokens fields).template ∧
      (compile tokens fields).gaps =
        (ofFields tokens fields).placed.map fun (g, place) => (g.content, place) := by
  have gone (waiting : List Word) :
      ((behind [] waiting).fields fields).close = behind (Field.layOut waiting fields) [] := by
    rw [fields_behind, List.nil_append, close_behind]
  have compiled : compile tokens fields = behind (ofFields tokens fields).gaps [] := by
    rw [compile, ofFields, wrapping]
    split
    -- The length is written at last, where it changes nothing that a cursor goes by.
    · have begun : 1 < (({} : Cursor).write [Word.ofList none, 0]).words.length := by decide
      dsimp only
      rw [← (patch_fields begun _ fields).2]
      exact gone _
    · exact gone []
  rw [compiled]
  refine ⟨?_, rfl⟩
  simp [template, behind, Layout.template, List.flatMap_assoc]
  rfl

end Cursor

end TagWire
