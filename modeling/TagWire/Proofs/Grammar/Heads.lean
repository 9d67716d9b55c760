import TagWire.Proofs.Layout.Readers

/-!
# Heads and their words

Reading a head succeeds on the words of a head, takes all of them and nothing behind them.

- `Grammar.HeadForm`: the words of heads.
- `Head.signs_sound`, `Head.signs_complete`: the directives in front of a field.
- `Head.read_sound`: what is read is a head.
- `Head.read_complete`: a head is read, whatever stands behind it.
-/

namespace TagWire

namespace Grammar

/-- What the words of a head declare. -/
inductive Outline where
  | derivation (derivation : Derivation)
  | field (use : Use) (shape : Shape)

/-- The words of a field in front of the fields inside it. -/
inductive HeadForm (item : Option (Kind × Bool)) (isHidden : Bool) : List String → Outline → Prop
  | compute {name derivation} (known : Derivation.ofName? name = some derivation) :
      HeadForm item isHidden ["compute", name] (.derivation derivation)
  | field {signs body use shape} (directed : Signs isHidden signs use)
      (shaped : Body item body shape) (ruled : Permitted isHidden use shape) :
      HeadForm item isHidden (signs ++ body) (.field use shape)

variable {use : Use} {shape : Shape}

/-- A body begins with a word of its own, which is a keyword and none of a directive. -/
theorem Body.first {item : Option (Kind × Bool)} {words : List String}
    (body : Body item words shape) :
    ∃ word rest, words = word :: rest ∧ word.toList.head?.any Char.isAlpha = true ∧
      word ≠ "skip" ∧ word ≠ "compute" := by
  cases body with
  | scalar typed =>
    exact ⟨_, _, rfl, typed.letter, typed.ne (by decide) (by rfl) (by decide),
      typed.ne (by decide) (by rfl) (by decide)⟩
  | openVector | vector | list | itemVector =>
    exact ⟨_, _, rfl, by decide, by decide, by decide⟩

/-- Nothing is computed where data is read. -/
theorem Signs.none_computed {isHidden : Bool} {signs : List String}
    (directed : Signs isHidden signs use) : "compute" ∉ signs := by
  cases directed <;> simp [← String.toList_inj]

theorem fits_of_unloaded (unloaded : use.isLoaded = false)
    (saves : use.isSaved = true → ∀ n, shape ≠ .list none n) : Fits use shape := by
  cases use with
  | exchanged | skipped => trivial
  | saved name => exact saves rfl
  | loaded => cases unloaded

theorem Fits.unloaded (fits : Fits use shape)
    (other : ∀ element, shape ≠ .scalar element) : use.isLoaded = false := by
  cases use with
  | loaded =>
    obtain ⟨element, scalar, -⟩ := fits
    exact (other element scalar).elim
  | _ => rfl

end Grammar

namespace Layout

open Grammar (HeadForm Outline Shape Body Signs Length Loadable Fits Typed)

namespace Head

variable {scope : Scope} {tokens rest : List Token} {t : Token} {use : Use} {head : Head}

/-! ## Directives -/

/-- Directives that are read are directives of the field, in front of the next token. -/
theorem signs_sound {first t₁ : Token} {isHidden : Bool} {mid : List Token}
    (skipped : (skipDirective scope first).run tokens = (.ok (isHidden, t₁), mid))
    (used : (useDirective scope isHidden t₁).run mid = (.ok (use, t), rest)) :
    ∃ signs : List Token, first :: tokens = signs ++ t :: rest ∧
      Signs scope.isHidden (signs.map Token.text) use ∧ Loadable scope.isHidden use := by
  by_cases save : t₁.lexeme = .save
  · obtain ⟨rfl, rfl⟩ := (useDirective_save save).mp used
    obtain ⟨named, text⟩ := save_iff.mp ⟨save, rfl⟩
    rcases skipDirective_iff.mp skipped with ⟨skip, rfl, rfl⟩ | ⟨no_skip, rfl, rfl, rfl⟩
    · refine ⟨[first, t₁], rfl, ?_⟩
      rw [List.map_cons, List.map_cons, skip, text]
      exact ⟨.skipSave named, trivial⟩
    · refine ⟨[t₁], rfl, ?_⟩
      rw [List.map_cons, text]
      exact ⟨.save named, trivial⟩
  by_cases load : t₁.lexeme = .load
  · -- behind `skip` nothing is loaded
    obtain ⟨outside, ⟨literal, loads, rfl⟩, rfl⟩ := (useDirective_load load).mp used
    obtain ⟨named, text⟩ := load_iff.mp ⟨load, rfl⟩
    rcases skipDirective_iff.mp skipped with ⟨_, rfl, _⟩ | ⟨no_skip, rfl, rfl, rfl⟩
    · cases outside
    · refine ⟨[t₁], rfl, ?_⟩
      rw [List.map_cons, text]
      exact ⟨.load named, outside, loads⟩
  obtain ⟨rfl, rfl, rfl⟩ := (useDirective_plain save load).mp used
  rcases skipDirective_iff.mp skipped with ⟨skip, rfl, rfl⟩ | ⟨no_skip, rfl, rfl, rfl⟩
  · refine ⟨[first], rfl, ?_⟩
    rw [List.map_cons, skip]
    exact ⟨.skip, trivial⟩
  · refine ⟨[], rfl, .none, ?_⟩
    cases scope.isHidden <;> trivial

/-- The directives of a field are read in front of a keyword. -/
theorem signs_complete {first : Token} {signs : List Token}
    (directed : Signs scope.isHidden (signs.map Token.text) use)
    (loadable : Loadable scope.isHidden use) (keyword : t.lexeme = .keyword)
    (no_skip : t.text ≠ "skip")
    (taken : first :: tokens = signs ++ t :: rest) :
    ∃ isHidden t₁ mid, (skipDirective scope first).run tokens = (.ok (isHidden, t₁), mid) ∧
      (useDirective scope isHidden t₁).run mid = (.ok (use, t), rest) := by
  generalize spelled : signs.map Token.text = words at directed
  have no_sign : t.lexeme ≠ .save ∧ t.lexeme ≠ .load := by
    rw [keyword]
    decide
  cases directed with
  | none =>
    obtain rfl := List.map_eq_nil_iff.mp spelled
    obtain ⟨rfl, rfl⟩ := List.cons.inj taken
    exact ⟨scope.isHidden, first, tokens, skipDirective_iff.mpr (.inr ⟨no_skip, rfl, rfl, rfl⟩),
      (useDirective_plain no_sign.1 no_sign.2).mpr ⟨rfl, rfl, rfl⟩⟩
  | skip =>
    simp only [List.map_eq_cons_iff, List.map_eq_nil_iff] at spelled
    obtain ⟨skip, _, rfl, text, rfl⟩ := spelled
    obtain ⟨rfl, rfl⟩ := List.cons.inj taken
    exact ⟨true, t, rest, skipDirective_iff.mpr (.inl ⟨text, rfl, rfl⟩),
      (useDirective_plain no_sign.1 no_sign.2).mpr ⟨rfl, rfl, rfl⟩⟩
  | save named =>
    simp only [List.map_eq_cons_iff, List.map_eq_nil_iff] at spelled
    obtain ⟨sign, _, rfl, text, rfl⟩ := spelled
    obtain ⟨rfl, rfl⟩ := List.cons.inj taken
    obtain ⟨save, rfl⟩ := save_iff.mpr ⟨named, text⟩
    have no_skip : first.text ≠ "skip" := by simp [text, ← String.toList_inj]
    exact ⟨scope.isHidden, first, t :: rest, skipDirective_iff.mpr (.inr ⟨no_skip, rfl, rfl, rfl⟩),
      (useDirective_save save).mpr ⟨rfl, rfl⟩⟩
  | skipSave named =>
    simp only [List.map_eq_cons_iff, List.map_eq_nil_iff] at spelled
    obtain ⟨skip, _, rfl, skip_text, sign, _, rfl, text, rfl⟩ := spelled
    obtain ⟨rfl, rfl⟩ := List.cons.inj taken
    obtain ⟨save, rfl⟩ := save_iff.mpr ⟨named, text⟩
    exact ⟨true, sign, t :: rest, skipDirective_iff.mpr (.inl ⟨skip_text, rfl, rfl⟩),
      (useDirective_save save).mpr ⟨rfl, rfl⟩⟩
  | load named =>
    simp only [List.map_eq_cons_iff, List.map_eq_nil_iff] at spelled
    obtain ⟨sign, _, rfl, text, rfl⟩ := spelled
    obtain ⟨rfl, rfl⟩ := List.cons.inj taken
    obtain ⟨load, rfl⟩ := load_iff.mpr ⟨named, text⟩
    have no_skip : first.text ≠ "skip" := by simp [text, ← String.toList_inj]
    exact ⟨scope.isHidden, first, t :: rest, skipDirective_iff.mpr (.inr ⟨no_skip, rfl, rfl, rfl⟩),
      (useDirective_load load).mpr ⟨loadable.1, ⟨_, loadable.2, rfl⟩, rfl⟩⟩

/-! ## Bodies -/

/-- What a head that was read declares. The data of scalars and vectors is bound to their use. -/
def Outlines : Head → Outline → Prop
  | whole (.derive derivation _), .derivation declared => derivation = declared
  | whole (.data _ payload), .field use shape =>
    payload.use = use ∧ ∀ inner n, shape ≠ .list inner n
  | opening isHidden _ item length, .field use shape =>
    isHidden = use.isHidden ∧ shape = .list item length
  | _, _ => False

variable {start taken : List Token} {shape : Shape}

/-- What is read behind the directives of a field is a body. -/
theorem readBody_sound (h : (readBody scope start use t).run tokens = (.ok head, rest)) :
    ∃ taken shape, tokens = taken ++ rest ∧
      Body scope.item (t.text :: taken.map Token.text) shape ∧ Fits use shape ∧
      head.Outlines (.field use shape) := by
  unfold readBody at h
  split at h
  · rename_i text
    obtain ⟨length, n, told, unloaded, unsaved, rfl, rfl⟩ := readList_iff.mp h
    refine ⟨[length], .list none n, rfl, text ▸ .list told, ?_, rfl, rfl⟩
    exact Grammar.fits_of_unloaded unloaded fun saved => by simp [unsaved] at saved
  · rename_i text
    obtain ⟨type, length, element, c, count, typed, converted, unloaded, counted, rfl⟩ :=
      readVector_iff.mp h
    have typed : Typed none type.text element :=
      typed_of_elementType typed ((Grammar.reaches_iff _).mpr ⟨c, converted⟩)
    have fits : Fits use .vector :=
      Grammar.fits_of_unloaded unloaded fun _ => nofun
    obtain ⟨mark, rfl, rfl⟩ | ⟨n, mark, told, rfl, marked, rfl⟩ := counted
    · refine ⟨[type, length], .vector, rfl, ?_, fits, rfl, nofun⟩
      rw [text, List.map_cons, List.map_cons, mark]
      exact .openVector typed
    · refine ⟨[type, length, mark], .vector, rfl, ?_, fits, rfl, nofun⟩
      rw [text, List.map_cons, List.map_cons, List.map_cons, marked]
      exact .vector typed told
  · rename_i text
    obtain ⟨type, length, element, n, typed, unsized, told, unloaded, rfl, rfl⟩ :=
      readItemVector_iff.mp h
    have typed : Typed none type.text element :=
      typed_of_elementType typed (by rw [unsized]; trivial)
    refine ⟨[type, length], .list (some (element.kind, element.isUnsigned)) n, rfl, ?_,
      Grammar.fits_of_unloaded unloaded fun _ => nofun, rfl, rfl⟩
    rw [text, List.map_cons]
    generalize type.text = word at typed ⊢
    cases typed with
    | keyword known sized =>
      cases unsized
      cases sized
      rw [String.append_empty]
      exact .itemVector known told
    | item stands => cases stands
  · obtain ⟨mark, element, c, text, rfl, typed, converted, loads, rfl⟩ := readScalar_iff.mp h
    have typed : Typed scope.item t.text element :=
      typed_of_elementType typed ((Grammar.reaches_iff _).mpr ⟨c, converted⟩)
    refine ⟨[mark], .scalar element, rfl, ?_, ?_, rfl, nofun⟩
    · rw [List.map_cons, text]
      exact .scalar typed
    · cases use with
      | loaded =>
        obtain ⟨identity, integer⟩ := loads rfl
        exact ⟨element, rfl, integer, (Grammar.identity_iff converted).mp identity⟩
      | saved => exact nofun
      | exchanged | skipped => trivial

theorem readScalar_complete {element : ElementType} {mark : Token}
    (typed : Typed scope.item t.text element) (fits : Fits use (.scalar element))
    (marked : mark.text = "*") (start rest : List Token) :
    ∃ head, (readScalar scope start use t).run (mark :: rest) = (.ok head, rest) ∧
      head.Outlines (.field use (.scalar element)) := by
  obtain ⟨c, converted⟩ := (Grammar.reaches_iff (!element.isUnsigned)).mp typed.reaches
  have loads (loaded : use.isLoaded = true) : c = .identity ∧ element.kind.isInteger = true := by
    cases use with
    | loaded =>
      obtain ⟨_, ⟨⟩, integer, own⟩ := fits
      exact ⟨(Grammar.identity_iff converted).mpr own, integer⟩
    | _ => cases loaded
  exact ⟨_, readScalar_iff.mpr ⟨mark, element, c, marked, rfl, elementType_of_typed typed,
    converted, loads, rfl⟩, rfl, nofun⟩

/-- A vector of either form is read. -/
theorem readVector_complete {element : ElementType} {type length : Token} {count : Count}
    (typed : Typed none type.text element) (unloaded : use.isLoaded = false)
    (start rest : List Token)
    (counted : (length.text = "*" ∧ count = .fromWire ∧ tokens = type :: length :: rest) ∨
      ∃ n mark, Length length.text n ∧ count = .fixed n ∧ mark.text = "*" ∧
        tokens = type :: length :: mark :: rest) :
    ∃ head, (readVector scope start use t).run tokens = (.ok head, rest) ∧
      head.Outlines (.field use .vector) := by
  obtain ⟨c, converted⟩ := (Grammar.reaches_iff (!element.isUnsigned)).mp typed.reaches
  exact ⟨_, readVector_iff.mpr ⟨type, length, element, c, count, elementType_of_typed typed,
    converted, unloaded, counted, rfl⟩, rfl, nofun⟩

/-- A body is read behind the directives of a field. -/
theorem readBody_complete (body : Body scope.item (t.text :: taken.map Token.text) shape)
    (fits : Fits use shape) (start rest : List Token) :
    ∃ head, (readBody scope start use t).run (taken ++ rest) = (.ok head, rest) ∧
      head.Outlines (.field use shape) := by
  unfold readBody
  generalize spelled : t.text :: taken.map Token.text = words at body
  cases body with
  | scalar typed =>
    simp only [List.cons.injEq, List.map_eq_cons_iff, List.map_eq_nil_iff] at spelled
    obtain ⟨text, mark, _, rfl, marked, rfl⟩ := spelled
    rw [← text] at typed
    split
    · rename_i list
      exact absurd list (typed.ne (by decide) (by rfl) (by decide))
    · rename_i vector
      exact absurd vector (typed.ne (by decide) (by rfl) (by decide))
    · rename_i items
      exact absurd items (typed.ne (by decide) (by rfl) (by decide))
    · exact readScalar_complete typed fits marked start rest
  | openVector typed =>
    simp only [List.cons.injEq, List.map_eq_cons_iff, List.map_eq_nil_iff] at spelled
    obtain ⟨text, type, _, rfl, rfl, length, _, rfl, marked, rfl⟩ := spelled
    rw [text]
    exact readVector_complete typed (fits.unloaded nofun) start rest (.inl ⟨marked, rfl, rfl⟩)
  | @vector _ _ _ n typed told =>
    simp only [List.cons.injEq, List.map_eq_cons_iff, List.map_eq_nil_iff] at spelled
    obtain ⟨text, type, _, rfl, rfl, length, _, rfl, rfl, mark, _, rfl, marked, rfl⟩ := spelled
    rw [text]
    exact readVector_complete typed (fits.unloaded nofun) start rest
      (.inr ⟨n, mark, told, rfl, marked, rfl⟩)
  | @list _ n told =>
    simp only [List.cons.injEq, List.map_eq_cons_iff, List.map_eq_nil_iff] at spelled
    obtain ⟨text, length, _, rfl, rfl, rfl⟩ := spelled
    have unsaved : use.isSaved = false := by
      cases use with
      | saved => exact (fits n rfl).elim
      | _ => rfl
    rw [text]
    exact ⟨_, readList_iff.mpr ⟨length, n, told, fits.unloaded nofun, unsaved, rfl, rfl⟩,
      rfl, rfl⟩
  | @itemVector _ kind _ n known told =>
    simp only [List.cons.injEq, List.map_eq_cons_iff, List.map_eq_nil_iff] at spelled
    obtain ⟨text, type, _, rfl, rfl, length, _, rfl, rfl, rfl⟩ := spelled
    have typed : Typed (stands scope true) (type.text ++ "") _ := .keyword known .untold trivial
    rw [String.append_empty] at typed
    rw [text]
    exact ⟨_, readItemVector_iff.mpr ⟨type, length, _, n, elementType_of_typed typed, rfl, told,
      fits.unloaded nofun, rfl, rfl⟩, rfl, rfl⟩

/-- What is read as a head is one. -/
theorem read_sound (h : (Head.read scope).run tokens = (.ok head, rest)) :
    ∃ taken outline, tokens = taken ++ rest ∧
      HeadForm scope.item scope.isHidden (taken.map Token.text) outline ∧
      head.Outlines outline := by
  obtain ⟨first, behind, rfl, ⟨compute, h⟩ | ⟨-, isHidden, t₁, mid, use, t, mid', skipped, used, -,
    h⟩⟩ := read_ok_iff.mp h
  · obtain ⟨t, derivation, known, rfl, rfl⟩ := readDerivation_iff.mp h
    refine ⟨[first, t], .derivation derivation, rfl, ?_, rfl⟩
    rw [List.map_cons, compute]
    exact .compute known
  · obtain ⟨signs, split, directed, loadable⟩ := signs_sound skipped used
    obtain ⟨taken, shape, rfl, body, fits, outlines⟩ := readBody_sound h
    refine ⟨signs ++ t :: taken, .field use shape, ?_, ?_, outlines⟩
    · rw [split, List.append_assoc]
      rfl
    · rw [List.map_append]
      exact .field directed body ⟨loadable, fits⟩

/-- A head is read, and nothing of what stands behind it. -/
theorem read_complete {outline : Outline}
    (form : HeadForm scope.item scope.isHidden (taken.map Token.text) outline)
    (rest : List Token) :
    ∃ head, (Head.read scope).run (taken ++ rest) = (.ok head, rest) ∧ head.Outlines outline := by
  generalize spelled : taken.map Token.text = words at form
  cases form with
  | @compute _ derivation known =>
    simp only [List.map_eq_cons_iff, List.map_eq_nil_iff] at spelled
    obtain ⟨first, _, rfl, compute, t, _, rfl, rfl, rfl⟩ := spelled
    exact ⟨_, read_ok_iff.mpr ⟨first, t :: rest, rfl,
      .inl ⟨compute, readDerivation_iff.mpr ⟨t, derivation, known, rfl, rfl⟩⟩⟩, rfl⟩
  | @field signs body use shape directed shaped ruled =>
    obtain ⟨signs, others, rfl, rfl, rfl⟩ := List.map_eq_append_iff.mp spelled
    obtain ⟨word, words, split, letter, no_skip, no_compute⟩ := shaped.first
    obtain ⟨t, taken, rfl, rfl, rfl⟩ := List.map_eq_cons_iff.mp split
    have keyword := Token.lexeme_of_letter letter
    obtain ⟨first, behind, cut⟩ : ∃ first behind, signs ++ t :: (taken ++ rest) = first :: behind := by
      apply List.exists_cons_of_ne_nil
      simp
    have plain : first.text ≠ "compute" := by
      cases signs with
      | nil =>
        obtain ⟨rfl, -⟩ := List.cons.inj cut
        exact no_compute
      | cons sign others =>
        obtain ⟨rfl, -⟩ := List.cons.inj cut
        intro computed
        exact directed.none_computed (computed ▸ List.mem_cons_self)
    obtain ⟨isHidden, t₁, mid, skipped, used⟩ :=
      signs_complete directed ruled.1 keyword no_skip cut.symm
    obtain ⟨head, read, outlines⟩ := readBody_complete shaped ruled.2 (first :: behind) rest
    refine ⟨head, ?_, outlines⟩
    rw [List.append_assoc, List.cons_append, cut]
    exact read_ok_iff.mpr ⟨first, behind, rfl,
      .inr ⟨plain, isHidden, t₁, mid, use, t, taken ++ rest, skipped, used, keyword, read⟩⟩

end Head

end Layout

end TagWire
