import TagWire.Proofs.Layout.Forming
import TagWire.Proofs.Ranges

/-!
# Regular layouts

What both directions of a transcoder index by. The tag words of the gaps stand one behind the other and
fill the template, and conversions and loaded data have sizes that fit.

- `Tiles`: ranges of whole words that go on where the one before ends.
- `Layout.Regular`, `Layout.compileSections_regular`: what holds of compiled layouts.
-/

namespace TagWire

/-- Ranges of whole words from one place to another, each going on where the one before ends. -/
def Tiles : (start : Nat) → List (Nat × Nat) → (stop : Nat) → Prop
  | start, [], stop => start = stop
  | start, (first, last) :: rest, stop =>
    first = start ∧ first ≤ last ∧ 4 ∣ first ∧ 4 ∣ last ∧ Tiles last rest stop

theorem Gap.length_template (g : Gap) : g.template.length = 4 * g.words.length := by
  rw [template]
  induction g.words with
  | nil => rfl
  | cons w rest ih =>
    rw [List.flatMap_cons, List.length_append, ih, Word.length_toBytes, List.length_cons]
    omega

namespace Layout

open Word (Heads)

theorem tiles_placeFrom {start : Nat} (aligned : 4 ∣ start) (gaps : List Gap) :
    Tiles start ((placeFrom start gaps).map Prod.snd)
      (start + (gaps.flatMap Gap.template).length) := by
  induction gaps generalizing start with
  | nil => rfl
  | cons g rest ih =>
    have aligned' : 4 ∣ start + 4 * g.words.length := by omega
    have further := ih aligned'
    rw [List.flatMap_cons, List.length_append, Gap.length_template, ← Nat.add_assoc]
    exact ⟨rfl, by omega, aligned, aligned', further⟩

theorem map_placeFrom (start : Nat) (gaps : List Gap) :
    (placeFrom start gaps).map Prod.fst = gaps := by
  induction gaps generalizing start with
  | nil => rfl
  | cons g rest ih => rw [placeFrom, List.map_cons, ih]

/-- The words of a gap stand at its place, behind those of the gaps before. -/
theorem slice_placeFrom {before : Bytes} {gaps : List Gap} {g : Gap} {start stop : Nat}
    (member : (g, start, stop) ∈ placeFrom before.length gaps) :
    (before ++ gaps.flatMap Gap.template).slice? start stop = some g.template := by
  induction gaps generalizing before with
  | nil => cases member
  | cons first rest ih =>
    rw [List.flatMap_cons, ← List.append_assoc]
    rcases List.mem_cons.mp member with same | behind
    · cases same
      rw [← Gap.length_template]
      exact Bytes.slice?_append before g.template _
    · apply ih
      rwa [List.length_append, Gap.length_template]

theorem stop_placeFrom {gaps : List Gap} {g : Gap} {first start stop : Nat}
    (member : (g, start, stop) ∈ placeFrom first gaps) :
    g ∈ gaps ∧ stop = start + 4 * g.words.length := by
  induction gaps generalizing first with
  | nil => cases member
  | cons other rest ih =>
    rcases List.mem_cons.mp member with same | behind
    · cases same
      exact ⟨List.mem_cons_self, rfl⟩
    · obtain ⟨inside, ends⟩ := ih behind
      exact ⟨List.mem_cons_of_mem _ inside, ends⟩

/-- What holds of a compiled layout. -/
structure Regular (l : Layout) : Prop where
  /-- The places of the gaps fill the template. -/
  tiles : Tiles 0 (l.placed.map Prod.snd) l.template.length
  placed : l.placed.map Prod.fst = l.gaps
  /-- At the place of a gap stand its tag words. -/
  slice : ∀ g start stop, (g, start, stop) ∈ l.placed →
    l.template.slice? start stop = some g.template
  /-- What is hidden has no tag words, and so has a derivation. -/
  hidden : ∀ g start stop, (g, start, stop) ∈ l.placed → g.isHidden = true → start = stop
  /-- The words of a vector whose length is told outside end with its tag, in front of that length. -/
  told : ∀ g ∈ l.gaps, g.isHidden = false → g.count = .fromWire → ∃ p heads,
    g.payload? = some p ∧ Heads heads ∧ g.words = heads ++ [Word.ofList (some p.kind)]
  /-- In front of all else, each tag of a list has the length of the list behind it. -/
  closed : ∀ g ∈ l.gaps, g.isHidden = true ∨ g.count ≠ .fromWire → ∃ heads own,
    Heads heads ∧ g.words = heads ++ own ∧ ∀ w ∈ own, w.isList = false
  /-- Only integers are filled up, to eight bytes at most. -/
  pad : ∀ g ∈ l.gaps, ∀ wire signed, g.conversion = .pad wire signed → ∃ p unit,
    g.payload? = some p ∧ p.kind ∈ [.int8, .int16, .int32, .int64] ∧ p.kind.size? = some unit ∧
      unit < wire ∧ wire ≤ 8
  narrow : ∀ g ∈ l.gaps, g.conversion = .narrow → ∃ p, g.payload? = some p ∧ p.kind = .float64
  /-- Only a single integer or vocab in its own width is loaded. -/
  loaded : ∀ g ∈ l.gaps, ∀ p, g.payload? = some p → p.use.isLoaded = true →
    g.isHidden = false ∧ p.count = .fixed 1 ∧ p.conversion = .identity ∧
      p.kind ∈ [.int8, .int16, .int32, .int64, .vocab] ∧
      ∃ heads, Heads heads ∧ (g.words = heads ∨ g.words = heads ++ [Word.ofKind p.kind])

end Layout

namespace Gap.Formed

open Word (Heads)

variable {g : Gap} (formed : g.Formed)
include formed

theorem words_hidden (hidden : g.isHidden = true) : g.words = [] := by
  cases formed with
  | bare => cases hidden
  | derivation => rfl
  | hidden => rfl
  | visible _ visible => cases visible.symm.trans hidden

theorem words_told (visible : g.isHidden = false) (counted : g.count = .fromWire) :
    ∃ p heads, g.payload? = some p ∧ Heads heads ∧ g.words = heads ++ [Word.ofList (some p.kind)] := by
  cases formed with
  | bare => cases counted
  | derivation => cases counted
  | hidden _ hidden => cases hidden.symm.trans visible
  | @visible p _ _ _ announced =>
    cases announced with
    | item _ single => cases single.symm.trans counted
    | scalar _ single => cases single.symm.trans counted
    | vector _ _ fixed => cases fixed.symm.trans counted
    | told known => exact ⟨p, _, rfl, known, rfl⟩

theorem words_closed (others : g.isHidden = true ∨ g.count ≠ .fromWire) :
    ∃ heads own, Heads heads ∧ g.words = heads ++ own ∧ ∀ w ∈ own, w.isList = false := by
  have none_own : ∀ w ∈ ([] : List Word), w.isList = false := List.forall_mem_nil _
  cases formed with
  | bare known => exact ⟨_, [], known, (List.append_nil _).symm, none_own⟩
  | derivation => exact ⟨[], [], .nil, rfl, none_own⟩
  | hidden => exact ⟨[], [], .nil, rfl, none_own⟩
  | @visible p _ _ visible announced =>
    cases announced with
    | item known => exact ⟨_, [], known, (List.append_nil _).symm, none_own⟩
    | scalar known =>
      exact ⟨_, _, known, rfl, List.forall_mem_singleton.mpr (Word.ofKind_announces p.kind).2⟩
    | @vector _ n known =>
      exact ⟨_, [], known.append (.cons (some p.kind) (Word.ofTag n) .nil),
        (List.append_nil _).symm, none_own⟩
    | told _ _ counted =>
      rcases others with hidden | fixed
      · cases visible.symm.trans hidden
      · exact absurd counted fixed

theorem words_loaded {p : Payload} (data : g.payload? = some p) (loaded : p.use.isLoaded = true) :
    g.isHidden = false ∧
      ∃ heads, Heads heads ∧ (g.words = heads ∨ g.words = heads ++ [Word.ofKind p.kind]) := by
  cases formed with
  | bare => cases data
  | derivation => cases data
  | hidden _ hidden =>
    cases data
    cases use : p.use <;> simp [use, Use.isHidden, Use.isLoaded] at hidden loaded
  | visible _ visible announced =>
    cases data
    refine ⟨visible, ?_⟩
    cases announced with
    | item known => exact ⟨_, known, .inl rfl⟩
    | scalar known => exact ⟨_, known, .inr rfl⟩
    | vector _ exchanged =>
      rw [exchanged] at loaded
      cases loaded
    | told _ exchanged =>
      rw [exchanged] at loaded
      cases loaded

end Gap.Formed

theorem Gap.payload_converted {g : Gap} (converted : g.conversion ≠ .identity) :
    ∃ p, g.payload? = some p ∧ p.conversion = g.conversion := by
  unfold conversion at converted ⊢
  cases data : g.payload? with
  | none => simp [data] at converted
  | some p => exact ⟨p, rfl, rfl⟩

theorem Kind.numeral_mem {kind : Kind} (numeral : kind.isNumeral = true) :
    kind ∈ [.int8, .int16, .int32, .int64] := by
  cases kind <;> first | decide | cases numeral

theorem Kind.integer_mem {kind : Kind} (integer : kind.isInteger = true) :
    kind ∈ [.int8, .int16, .int32, .int64, .vocab] := by
  cases kind <;> first | decide | cases integer

namespace Layout

/-- A compiled layout is regular. -/
theorem compileSections_regular {grammar : String} {layouts : List Layout}
    (h : compileSections grammar = .ok layouts) {l : Layout} (member : l ∈ layouts) :
    l.Regular := by
  have formed := compileSections_formed h member
  have sound := compileSections_sound h member
  have tiles := tiles_placeFrom (Nat.dvd_zero 4) l.gaps
  rw [Nat.zero_add] at tiles
  exact {
    tiles
    placed := map_placeFrom 0 l.gaps
    slice := fun g start stop placed => @slice_placeFrom [] l.gaps g start stop placed
    hidden := fun g start stop placed hidden => by
      obtain ⟨inside, ends⟩ := stop_placeFrom placed
      rw [ends, (formed g inside).words_hidden hidden, List.length_nil, Nat.mul_zero, Nat.add_zero]
    told := fun g inside => (formed g inside).words_told
    closed := fun g inside => (formed g inside).words_closed
    pad := fun g inside wire signed padded => by
      obtain ⟨p, data, same⟩ := Gap.payload_converted (by rw [padded]; exact nofun)
      obtain ⟨numeral, unit, size, less, most⟩ := (sound g inside p data).pad (same.trans padded)
      exact ⟨p, unit, data, Kind.numeral_mem numeral, size, less, most⟩
    narrow := fun g inside narrow => by
      obtain ⟨p, data, same⟩ := Gap.payload_converted (by rw [narrow]; exact nofun)
      exact ⟨p, data, (sound g inside p data).narrow (same.trans narrow)⟩
    loaded := fun g inside p data loaded => by
      obtain ⟨integer, identity, single⟩ := (sound g inside p data).loaded loaded
      obtain ⟨visible, words⟩ := (formed g inside).words_loaded data loaded
      exact ⟨visible, single, identity, Kind.integer_mem integer, words⟩ }

end Layout

end TagWire
