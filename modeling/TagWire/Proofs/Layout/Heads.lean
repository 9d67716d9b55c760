import TagWire.Proofs.Layout.Declared
import TagWire.Proofs.Layout.Readers

/-!
# Heads of fields

What a head that can be read makes sure of: its conversion fits its kind, its count fits a word, and
only integers in their own width are loaded.

- `Head.Matches`: the heads of fields with a use.
- `Head.read_cases`: a head is that of a derivation, or of a field with a use that its directives
  ask for.
-/

namespace TagWire.Layout

/-- Whether a token is a sign or a keyword of a directive. -/
def Token.isDirective (t : Token) : Bool :=
  t.isWord "skip" || t.isWord "compute" || t.lexeme = .save || t.lexeme = .load

theorem conversion?_sound {kind : Kind} {signed : Bool} {wire : Option Nat} {c : Conversion}
    (h : conversion? kind signed wire = some c) :
    (c = .narrow → kind = .float64) ∧
      ∀ {w s}, c = .pad w s → kind.isNumeral = true ∧ ∃ size, kind.size? = some size ∧ size < w ∧
        w ≤ 8 := by
  unfold conversion? at h
  split at h
  · cases h
    exact ⟨nofun, nofun⟩
  · cases h
  · rename_i wire size size_eq
    split at h
    · cases h
      exact ⟨nofun, nofun⟩
    · split at h
      · rename_i narrow
        cases h
        exact ⟨fun _ => narrow.1, nofun⟩
      · split at h
        · rename_i pad
          cases h
          refine ⟨nofun, ?_⟩
          rintro _ _ ⟨rfl, rfl⟩
          exact ⟨pad.1, size, size_eq, pad.2⟩
        · cases h

namespace Head

variable {scope : Scope} {tokens rest : List Token} {t : Token}

theorem namedType_ok {inVector : Bool} {word : String} {wire : Option Nat} {element : ElementType}
    (h : namedType scope inVector t word wire = .ok element) :
    element.isItem = true → inVector = false ∧ scope.item.map Prod.fst = some element.kind := by
  unfold namedType at h
  split at h
  · split at h
    · cases h
    · rename_i outside
      split at h
      · rename_i kind isUnsigned item
        cases h
        intro _
        exact ⟨by simpa using outside, by rw [item, Option.map_some]⟩
      · cases h
  · split at h
    · cases h
      exact nofun
    · cases h

theorem elementType_ok {inVector : Bool} {element : ElementType}
    (h : elementType scope inVector t = .ok element) :
    element.isItem = true → inVector = false ∧ scope.item.map Prod.fst = some element.kind := by
  unfold elementType at h
  split at h
  · cases h
  · dsimp only at h
    split at h
    · exact namedType_ok h
    · split at h
      · exact namedType_ok h
      · cases h

/-- What is sure of the head of a field that has a use. -/
def Matches (scope : Scope) (use : Use) : Head → Prop
  | whole (.data words p) =>
    Field.Declared (scope.item.map Prod.fst) (.data words p) ∧ p.use = use
  | opening isHidden words item length =>
    isHidden = use.isHidden ∧
      words = unlessHidden use [Word.ofList (item.map Prod.fst), Word.ofTag length] ∧
      length < 0x80000000
  | _ => False

section
variable {start : List Token} {use : Use} {head : Head}

theorem readScalar_ok (h : (readScalar scope start use t).run tokens = (.ok head, rest)) :
    head.Matches scope use := by
  obtain ⟨mark, element, c, -, -, typed, converted, loads, rfl⟩ := readScalar_iff.mp h
  have isItem := elementType_ok typed
  have conversion := conversion?_sound converted
  have sound : Payload.Sound ⟨.fixed 1, element.kind, c, use,
      Token.spell (start.take (start.length - rest.length))⟩ := by
    refine ⟨conversion.1, conversion.2, fun h => ⟨(loads h).2, (loads h).1, rfl⟩, ?_⟩
    rintro n ⟨rfl⟩
    decide
  refine ⟨?_, rfl⟩
  cases hidden : use.isHidden with
  | true =>
    rw [unlessHidden, if_pos hidden]
    exact .hidden sound hidden
  | false =>
    rw [unlessHidden, if_neg (by simp [hidden])]
    split
    · rename_i item
      rw [(isItem item).2]
      exact .item sound hidden rfl
    · exact .scalar sound hidden rfl

theorem readVector_ok (h : (readVector scope start use t).run tokens = (.ok head, rest)) :
    head.Matches scope use := by
  obtain ⟨type, length, element, c, count, -, converted, unloaded, counted, rfl⟩ :=
    readVector_iff.mp h
  have conversion := conversion?_sound converted
  have sound : Payload.Sound ⟨count, element.kind, c, use,
      Token.spell (start.take (start.length - rest.length))⟩ := by
    refine ⟨conversion.1, conversion.2, fun loaded => ?_, ?_⟩
    · rw [unloaded] at loaded
      cases loaded
    · rintro n rfl
      obtain ⟨-, ⟨⟩, -⟩ | ⟨_, _, told, ⟨⟩, -⟩ := counted
      exact told.2
  refine ⟨?_, rfl⟩
  cases use with
  | exchanged => exact .vector sound rfl
  | skipped | saved => exact .hidden sound rfl
  | loaded => cases unloaded

theorem readItemVector_ok (h : (readItemVector scope use t).run tokens = (.ok head, rest)) :
    head.Matches scope use := by
  obtain ⟨type, length, element, n, -, -, told, -, -, rfl⟩ := readItemVector_iff.mp h
  exact ⟨rfl, rfl, told.2⟩

theorem readList_ok (h : (readList scope use t).run tokens = (.ok head, rest)) :
    head.Matches scope use := by
  obtain ⟨length, n, told, -, -, -, rfl⟩ := readList_iff.mp h
  exact ⟨rfl, rfl, told.2⟩

theorem readBody_ok (h : (readBody scope start use t).run tokens = (.ok head, rest)) :
    head.Matches scope use := by
  unfold readBody at h
  split at h
  · exact readList_ok h
  · exact readVector_ok h
  · exact readItemVector_ok h
  · exact readScalar_ok h

/-- A skip directive hides the field; without one, the first token is the next one. -/
theorem skipDirective_ok {isHidden : Bool} {first : Token}
    (h : (skipDirective scope first).run tokens = (.ok (isHidden, t), rest)) :
    isHidden = (scope.isHidden || first.isWord "skip") ∧
      (first.isWord "skip" = false → t = first) := by
  have word : first.isWord "skip" = true ↔ first.text = "skip" := Token.isWord_iff (by decide)
  rcases skipDirective_iff.mp h with ⟨skip, rfl, -⟩ | ⟨no_skip, rfl, rfl, -⟩
  · rw [word.mpr skip, Bool.or_true]
    exact ⟨rfl, nofun⟩
  · have plain : t.isWord "skip" = false := Bool.eq_false_iff.mpr (mt word.mp no_skip)
    rw [plain, Bool.or_false]
    exact ⟨rfl, fun _ => rfl⟩

/-- A save directive hides the field as well. -/
theorem useDirective_ok {isHidden : Bool} {t' : Token}
    (h : (useDirective scope isHidden t).run tokens = (.ok (use, t'), rest)) :
    use.isHidden = (isHidden || t.lexeme = .save) ∧
      (t.isDirective = false → isHidden = false → use = .exchanged) := by
  by_cases save : t.lexeme = .save
  · obtain ⟨rfl, -⟩ := (useDirective_save save).mp h
    exact ⟨by simp [save, Use.isHidden], fun plain => by simp [Token.isDirective, save] at plain⟩
  by_cases load : t.lexeme = .load
  · obtain ⟨rfl, ⟨literal, -, rfl⟩, -⟩ := (useDirective_load load).mp h
    exact ⟨by simp [load, Use.isHidden], fun plain => by simp [Token.isDirective, load] at plain⟩
  obtain ⟨rfl, -, -⟩ := (useDirective_plain save load).mp h
  cases isHidden
  · exact ⟨by simpa [Use.isHidden] using save, fun _ _ => rfl⟩
  · exact ⟨rfl, nofun⟩

end

/-- A head that can be read, of a derivation or of data with the use that its directives ask for. -/
theorem read_cases {head : Head} (h : (Head.read scope).run tokens = (.ok head, rest)) :
    ∃ first behind, tokens = first :: behind ∧
      ((first.isWord "compute" = true ∧
        ∃ derivation origin, head = .whole (.derive derivation origin)) ∨
      (first.isWord "compute" = false ∧ ∃ use, head.Matches scope use ∧
        use.isHidden = (scope.isHidden || first.isWord "skip" || first.lexeme = .save) ∧
          (first.isDirective = false → scope.isHidden = false → use = .exchanged))) := by
  have word (first : Token) : first.isWord "compute" = true ↔ first.text = "compute" :=
    Token.isWord_iff (by decide)
  obtain ⟨first, behind, rfl, ⟨compute, h⟩ | ⟨no_compute, isHidden, t, mid, use, t', _, skipped, used,
    -, h⟩⟩ := read_ok_iff.mp h
  · obtain ⟨_, derivation, -, -, rfl⟩ := readDerivation_iff.mp h
    exact ⟨first, behind, rfl, .inl ⟨(word first).mpr compute, derivation, _, rfl⟩⟩
  · obtain ⟨hidden, unskipped⟩ := skipDirective_ok skipped
    obtain ⟨used, exchanged⟩ := useDirective_ok used
    have plain : first.isWord "compute" = false :=
      Bool.eq_false_iff.mpr (mt (word first).mp no_compute)
    refine ⟨first, behind, rfl, .inr ⟨plain, use, readBody_ok h, ?_, ?_⟩⟩
    · rw [used, hidden]
      cases skip : first.isWord "skip" with
      | true => simp
      | false => rw [unskipped skip]
    · intro plain visible
      have no_skip : first.isWord "skip" = false := by
        simp only [Token.isDirective, Bool.or_eq_false_iff] at plain
        exact plain.1.1.1
      rw [no_skip, visible] at hidden
      rw [unskipped no_skip] at exchanged
      exact exchanged plain hidden

/-- A head that can be read, of a derivation or of data with some use. -/
theorem read_ok {head : Head} (h : (Head.read scope).run tokens = (.ok head, rest)) :
    (∃ derivation origin, head = .whole (.derive derivation origin) ∧ ∃ t ∈ tokens,
      t.isDirective = true) ∨
      ∃ use, head.Matches scope use ∧ (scope.isHidden = true → use.isHidden = true) ∧
        ((∀ t ∈ tokens, t.isDirective = false) → scope.isHidden = false → use = .exchanged) := by
  obtain ⟨first, behind, rfl, computed | ⟨-, use, matched, hidden, used⟩⟩ := read_cases h
  · obtain ⟨compute, derivation, origin, rfl⟩ := computed
    exact .inl ⟨derivation, origin, rfl, first, List.mem_cons_self, by
      simp [Token.isDirective, compute]⟩
  · exact .inr ⟨use, matched, fun scope_hidden => by rw [hidden, scope_hidden]; rfl,
      fun plain => used (plain first List.mem_cons_self)⟩

end Head
end TagWire.Layout
