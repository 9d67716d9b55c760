import TagWire.Proofs.Layout.Forming

/-!
# Lists and their lengths

In the tag words of a compiled layout the tag of a list is followed by the length of the list. Only
the tag of a vector whose length is told outside ends the words of a gap, in front of that length.

- `Word.endsOpen`: words that end with the tag of a list.
- `Gap.Closed`, `Layout.Closed`: such words stand in front of a length.
- `Layout.compileSections_closed`: this holds of compiled layouts.
-/

namespace TagWire

open Word (Heads)

/-- Whether the words end with the tag of a list, which has no length behind it. The word behind the
tag of a list is a length, whatever bits it has. -/
def Word.endsOpen : List Word → Bool
  | [] => false
  | [tag] => tag.isList
  | tag :: next :: rest => if tag.isList then endsOpen rest else endsOpen (next :: rest)

/-- The length of a list that the words leave open is told in front of the data. -/
def Gap.Closed (g : Gap) : Prop :=
  Word.endsOpen g.words = true → ∃ p, g.content = .data p ∧ p.use = .exchanged ∧ p.count = .fromWire

def Layout.Closed (l : Layout) : Prop := ∀ g ∈ l.gaps, g.Closed

theorem Word.endsOpen_append {waiting : List Word} (heads : Heads waiting) (words : List Word) :
    endsOpen (waiting ++ words) = endsOpen words := by
  induction heads with
  | nil => rfl
  | cons shared length further ih =>
    have list : (Word.ofList shared).isList = true := (Word.ofList_announces shared).2.1
    simp only [List.cons_append, endsOpen, list, if_true, ih]

theorem Word.endsOpen_heads {words : List Word} (heads : Heads words) : endsOpen words = false := by
  have closed := endsOpen_append heads []
  rwa [List.append_nil] at closed

/-- A well-formed gap leaves only such a list open. -/
theorem Gap.Formed.closed {g : Gap} (formed : g.Formed) : g.Closed := by
  intro opened
  cases formed with
  | bare known =>
    have closed := Word.endsOpen_heads known
    cases closed.symm.trans opened
  | derivation => cases opened
  | hidden => cases opened
  | @visible p _ _ _ announced =>
    cases announced with
    | item known =>
      have closed := Word.endsOpen_heads known
      cases closed.symm.trans opened
    | scalar known =>
      have scalar : Word.endsOpen [Word.ofKind p.kind] = false := (Word.ofKind_announces p.kind).2
      rw [Word.endsOpen_append known, scalar] at opened
      cases opened
    | @vector _ n known =>
      have closed := Word.endsOpen_heads (.cons (some p.kind) (Word.ofTag n) .nil)
      rw [Word.endsOpen_append known, closed] at opened
      cases opened
    | told _ exchanged counted => exact ⟨p, rfl, exchanged, counted⟩

/-- The lists that a compiled layout leaves open. -/
theorem Layout.compileSections_closed {grammar : String} {layouts : List Layout}
    (h : compileSections grammar = .ok layouts) {l : Layout} (member : l ∈ layouts) : l.Closed :=
  fun g in_layout => (compileSections_formed h member g in_layout).closed

end TagWire
