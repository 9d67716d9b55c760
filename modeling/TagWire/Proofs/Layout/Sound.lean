import TagWire.Layout.Basic

/-!
# Sound layouts

What a grammar makes sure of about the data of a layout, as far as one piece of data goes:
conversions fit their kinds, counts fit a word, and only integers in their own width are loaded.

- `Payload.Sound`, `Layout.Sound`: such data, and layouts that have only such data.
-/

namespace TagWire

theorem Kind.size_pos {kind : Kind} {size : Nat} (h : kind.size? = some size) :
    0 < size ∧ size ≤ 8 := by
  cases kind <;> simp only [Kind.size?, Option.some.injEq, reduceCtorEq] at h <;> omega

theorem Kind.size_of_isInteger {kind : Kind} (h : kind.isInteger = true) :
    ∃ size, kind.size? = some size := by
  cases kind <;> first | exact ⟨_, rfl⟩ | cases h

/-- A piece of data that a grammar can declare. -/
structure Payload.Sound (p : Payload) : Prop where
  narrow : p.conversion = .narrow → p.kind = .float64
  pad : ∀ {wire signed}, p.conversion = .pad wire signed →
    p.kind.isNumeral = true ∧ ∃ size, p.kind.size? = some size ∧ size < wire ∧ wire ≤ 8
  loaded : p.use.isLoaded = true → p.kind.isInteger = true ∧ p.conversion = .identity ∧
    p.count = .fixed 1
  count : ∀ {n}, p.count = .fixed n → n < 0x80000000

/-- A layout whose data a grammar can declare. -/
def Layout.Sound (l : Layout) : Prop := ∀ g ∈ l.gaps, ∀ p, g.payload? = some p → p.Sound

end TagWire
