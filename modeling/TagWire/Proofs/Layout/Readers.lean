import TagWire.Proofs.Grammar.Types
import TagWire.Proofs.Layout.Steps

/-!
# The readers of heads

What each reader of the head of a field takes and gives, as an equivalence. What a head makes sure
of, and which words a head has, follows from these.

- `Head.listLength_iff`, `Head.vectorLength_iff`: the tokens that are lengths.
- `Head.skipDirective_iff`, `Head.useDirective_save`, `Head.useDirective_load`: directives.
- `Head.readScalar_iff`, `Head.readVector_iff`, `Head.readList_iff`, `Head.readItemVector_iff`: what
  is behind them.
- `Head.read_ok_iff`: heads.
-/

namespace TagWire.Layout

open Grammar (Loads Length)

/-- A word that begins with a letter is a keyword wherever it stands. -/
theorem Token.isWord_iff {t : Token} {word : String}
    (letter : word.toList.head?.any Char.isAlpha = true) :
    t.isWord word = true ↔ t.text = word := by
  rw [isWord, decide_eq_true_iff, and_iff_right_iff_imp]
  intro text
  exact lexeme_of_letter (text ▸ letter)

namespace Head

open Step (bind_ok_iff lift_ok_iff pure_ok_iff throw_ok_iff)

variable {scope : Scope} {start tokens rest : List Token} {t : Token} {use : Use} {head : Head}

/-! ## Tokens -/

theorem next_iff {wanted : Wanted} :
    (next scope wanted).run tokens = (.ok t, rest) ↔ tokens = t :: rest := by
  constructor
  · exact next_ok
  · rintro rfl
    rfl

theorem origin_iff {origin : String} :
    (originFrom start).run tokens = (.ok origin, rest) ↔
      origin = Token.spell (start.take (start.length - tokens.length)) ∧ rest = tokens :=
  pure_ok_iff

theorem wildcard_iff : t.lexeme = .wildcard ↔ t.text = "*" := by
  rw [Token.lexeme_iff (by decide)]
  constructor
  · intro spelled
    generalize t.text = word at spelled
    cases spelled
    rfl
  · intro text
    rw [text]
    exact .wildcard

theorem length_iff {n : Nat} :
    (t.lexeme = .length ∧ Decimal.natOfDigits t.text.toList = n) ↔ Grammar.Numeral t.text n := by
  rw [Token.lexeme_iff (by decide)]
  constructor
  · rintro ⟨spelled, rfl⟩
    generalize t.text = word at spelled ⊢
    cases spelled with
    | length numeral =>
      obtain ⟨some_text, digits, -⟩ := numeral
      exact ⟨some_text, digits, rfl⟩
  · intro numeral
    exact ⟨.length numeral, numeral.2.2⟩

theorem placeholder_iff {u : Unit} :
    (placeholder scope).run tokens = (.ok u, rest) ↔ ∃ t, t.text = "*" ∧ tokens = t :: rest := by
  cases tokens with
  | nil =>
    constructor
    · rintro ⟨⟩
    · rintro ⟨_, _, ⟨⟩⟩
  | cons t behind =>
    simp only [placeholder, ExceptT.run, List.cons.injEq]
    split
    · rename_i marked
      have text := wildcard_iff.mp marked
      constructor
      · rintro ⟨⟩
        exact ⟨t, text, rfl, rfl⟩
      · rintro ⟨_, _, rfl, rfl⟩
        rfl
    · rename_i unmarked
      constructor
      · rintro ⟨⟩
      · rintro ⟨_, text, rfl, _⟩
        exact absurd (wildcard_iff.mpr text) unmarked

theorem listLength_iff {n : Nat} :
    (listLength scope).run tokens = (.ok n, rest) ↔
      ∃ t, Length t.text n ∧ tokens = t :: rest := by
  rw [listLength, bind_ok_iff]
  constructor
  · rintro ⟨t, mid, taken, h⟩
    refine ⟨t, ?_⟩
    split at h
    · rename_i length
      dsimp only at h
      split at h
      · rename_i bound
        obtain ⟨rfl, rfl⟩ := pure_ok_iff.mp h
        exact ⟨⟨length_iff.mp ⟨length, rfl⟩, bound⟩, next_iff.mp taken⟩
      · exact (throw_ok_iff.mp h).elim
    · exact (throw_ok_iff.mp h).elim
    · exact (throw_ok_iff.mp h).elim
  · rintro ⟨t, ⟨numeral, bound⟩, taken⟩
    obtain ⟨length, rfl⟩ := length_iff.mpr numeral
    refine ⟨t, rest, next_iff.mpr taken, ?_⟩
    rw [length]
    dsimp only
    rw [if_pos bound]
    rfl

theorem vectorLength_iff {count : Count} :
    (vectorLength scope).run tokens = (.ok count, rest) ↔
      ∃ t, tokens = t :: rest ∧
        (t.text = "*" ∧ count = .fromWire ∨ ∃ n, Length t.text n ∧ count = .fixed n) := by
  rw [vectorLength, bind_ok_iff]
  constructor
  · rintro ⟨t, mid, taken, h⟩
    refine ⟨t, ?_⟩
    split at h
    · rename_i length
      dsimp only at h
      split at h
      · rename_i bound
        obtain ⟨rfl, rfl⟩ := pure_ok_iff.mp h
        exact ⟨next_iff.mp taken, .inr ⟨_, ⟨length_iff.mp ⟨length, rfl⟩, bound⟩, rfl⟩⟩
      · exact (throw_ok_iff.mp h).elim
    · rename_i marked
      obtain ⟨rfl, rfl⟩ := pure_ok_iff.mp h
      exact ⟨next_iff.mp taken, .inl ⟨wildcard_iff.mp marked, rfl⟩⟩
    · exact (throw_ok_iff.mp h).elim
  · rintro ⟨t, taken, ⟨text, rfl⟩ | ⟨n, ⟨numeral, bound⟩, rfl⟩⟩
    · refine ⟨t, rest, next_iff.mpr taken, ?_⟩
      rw [wildcard_iff.mpr text]
      rfl
    · obtain ⟨length, rfl⟩ := length_iff.mpr numeral
      refine ⟨t, rest, next_iff.mpr taken, ?_⟩
      rw [length]
      dsimp only
      rw [if_pos bound]
      rfl

theorem conversion_iff {element : ElementType} {c : Conversion} :
    (conversion start element).run tokens = (.ok c, rest) ↔
      conversion? element.kind (!element.isUnsigned) element.wire = some c ∧ rest = tokens := by
  unfold conversion
  split
  · rename_i c' found
    rw [pure_ok_iff, found, Option.some.injEq, eq_comm]
  · rename_i none_found
    rw [none_found]
    constructor
    · intro h
      obtain ⟨_, _, _, failed⟩ := bind_ok_iff.mp h
      exact (throw_ok_iff.mp failed).elim
    · rintro ⟨⟨⟩, _⟩

theorem refuseLoad_iff {u : Unit} : refuseLoad use t = .ok u ↔ use.isLoaded = false := by
  cases use <;> simp [refuseLoad, Use.isLoaded]

/-! ## Directives -/

theorem literal_iff {text : String} {literal : Int64} :
    Head.literal t text = .ok literal ↔
      ∃ v i, Value.parse text = .ok v ∧ (v.get? 0).bind Value.asInt = some i ∧
        literal = Int64.ofInt i := by
  unfold Head.literal
  cases Value.parse text with
  | error error => simp
  | ok v =>
    dsimp only
    split
    · rename_i i first
      simp [first, eq_comm]
    · rename_i none_first
      simp [none_first]

/-- What stands under a load sign, a literal or the name of a property, is known to all further
steps. -/
theorem loads_iff {β : Type} {further : Option Int64 → Step β} {b : β} :
    (match t.name.toList with
      | '=' :: text => do
        let value ← some <$> (liftM (Head.literal t (String.ofList text)) : Step Int64)
        further value
      | _ => do
        let value ← pure none
        further value : Step β).run tokens = (.ok b, rest) ↔
      ∃ literal, Loads t.name literal ∧ (further literal).run tokens = (.ok b, rest) := by
  split
  · rename_i text spelled
    have name : t.name = "=" ++ String.ofList text := by
      apply String.toList_inj.mp
      simp [spelled]
    rw [← bind_pure_comp, bind_assoc, bind_ok_iff]
    constructor
    · rintro ⟨i, _, lifted, h⟩
      obtain ⟨given, rfl⟩ := lift_ok_iff.mp lifted
      obtain ⟨v, i, parsed, first, rfl⟩ := literal_iff.mp given
      rw [pure_bind] at h
      exact ⟨_, .literal name parsed first, h⟩
    · rintro ⟨literal, loads, h⟩
      cases loads with
      | property plain => simp [spelled] at plain
      | @literal text' v i given parsed first =>
        have same : text' = String.ofList text := by
          rw [name] at given
          simpa using given.symm
        rw [same] at parsed
        refine ⟨_, _, lift_ok_iff.mpr ⟨literal_iff.mpr ⟨v, i, parsed, first, rfl⟩, rfl⟩, ?_⟩
        rw [pure_bind]
        exact h
  · rename_i no_sign
    rw [pure_bind]
    constructor
    · intro h
      refine ⟨none, .property fun sign => ?_, h⟩
      obtain ⟨text, spelled⟩ := List.head?_eq_some_iff.mp sign
      exact no_sign text spelled
    · rintro ⟨literal, loads, h⟩
      cases loads with
      | property plain => exact h
      | @literal text _ _ given =>
        refine (no_sign text.toList ?_).elim
        rw [given, String.toList_append]
        rfl

theorem skipDirective_iff {first : Token} {isHidden : Bool} :
    (skipDirective scope first).run tokens = (.ok (isHidden, t), rest) ↔
      (first.text = "skip" ∧ isHidden = true ∧ tokens = t :: rest) ∨
      (first.text ≠ "skip" ∧ isHidden = scope.isHidden ∧ t = first ∧ rest = tokens) := by
  have word : first.isWord "skip" = true ↔ first.text = "skip" := Token.isWord_iff (by decide)
  unfold skipDirective
  split
  · rename_i skip
    have text := word.mp skip
    rw [bind_ok_iff]
    constructor
    · rintro ⟨_, _, taken, done⟩
      obtain ⟨⟨⟩, rfl⟩ := pure_ok_iff.mp done
      exact .inl ⟨text, rfl, next_iff.mp taken⟩
    · rintro (⟨_, rfl, taken⟩ | ⟨other, _⟩)
      · exact ⟨t, rest, next_iff.mpr taken, rfl⟩
      · exact absurd text other
  · rename_i no_skip
    have other := mt word.mpr no_skip
    rw [pure_ok_iff, Prod.mk.injEq]
    simp [other, and_assoc]

/-- A sign with a name behind it, where the lexeme is that of the sign. -/
theorem sign_iff (lexeme : Lexeme) (sign : Char) {name : String} (other : lexeme ≠ .keyword)
    (spelled : ∀ word, Token.Spelled lexeme word ↔
      ∃ name, name ≠ "" ∧ word = String.singleton sign ++ name) :
    (t.lexeme = lexeme ∧ t.name = name) ↔ name ≠ "" ∧ t.text = String.singleton sign ++ name := by
  have named {name : String} (text : t.text = String.singleton sign ++ name) : t.name = name :=
    Token.name_of_text (by rw [text, String.toList_append, String.toList_singleton]; rfl)
  rw [Token.lexeme_iff other, spelled]
  constructor
  · rintro ⟨⟨name, some_name, text⟩, rfl⟩
    rw [named text]
    exact ⟨some_name, text⟩
  · rintro ⟨some_name, text⟩
    exact ⟨⟨name, some_name, text⟩, named text⟩

theorem save_iff {name : String} :
    (t.lexeme = .save ∧ t.name = name) ↔ name ≠ "" ∧ t.text = ">" ++ name := by
  refine sign_iff .save '>' (by decide) fun word => ⟨?_, ?_⟩
  · intro spelled
    cases spelled with
    | save some_name => exact ⟨_, some_name, rfl⟩
  · rintro ⟨name, some_name, rfl⟩
    exact .save some_name

theorem load_iff {name : String} :
    (t.lexeme = .load ∧ t.name = name) ↔ name ≠ "" ∧ t.text = "<" ++ name := by
  refine sign_iff .load '<' (by decide) fun word => ⟨?_, ?_⟩
  · intro spelled
    cases spelled with
    | load some_name => exact ⟨_, some_name, rfl⟩
  · rintro ⟨name, some_name, rfl⟩
    exact .load some_name

section
variable {isHidden : Bool} {first : Token}

theorem useDirective_save (save : first.lexeme = .save) :
    (useDirective scope isHidden first).run tokens = (.ok (use, t), rest) ↔
      use = .saved first.name ∧ tokens = t :: rest := by
  rw [useDirective, save, bind_ok_iff]
  constructor
  · rintro ⟨_, _, taken, done⟩
    obtain ⟨⟨⟩, rfl⟩ := pure_ok_iff.mp done
    exact ⟨rfl, next_iff.mp taken⟩
  · rintro ⟨rfl, taken⟩
    exact ⟨t, rest, next_iff.mpr taken, rfl⟩

theorem useDirective_load (load : first.lexeme = .load) :
    (useDirective scope isHidden first).run tokens = (.ok (use, t), rest) ↔
      isHidden = false ∧
        (∃ literal, Loads first.name literal ∧ use = .loaded first.name literal) ∧
        tokens = t :: rest := by
  rw [useDirective, load]
  dsimp only
  cases isHidden with
  | true =>
    constructor
    · intro h
      cases h
    · rintro ⟨⟨⟩, _⟩
  | false =>
    rw [if_neg (by decide)]
    refine (@loads_iff tokens rest first _ (fun literal => do
      let t ← next scope .typeAfterLoad
      return (Use.loaded first.name literal, t)) (use, t)).trans ?_
    constructor
    · rintro ⟨literal, loads, h⟩
      obtain ⟨_, _, taken, done⟩ := bind_ok_iff.mp h
      obtain ⟨⟨⟩, rfl⟩ := pure_ok_iff.mp done
      exact ⟨rfl, ⟨literal, loads, rfl⟩, next_iff.mp taken⟩
    · rintro ⟨_, ⟨literal, loads, rfl⟩, taken⟩
      exact ⟨literal, loads, bind_ok_iff.mpr ⟨t, rest, next_iff.mpr taken, rfl⟩⟩

theorem useDirective_plain (no_save : first.lexeme ≠ .save) (no_load : first.lexeme ≠ .load) :
    (useDirective scope isHidden first).run tokens = (.ok (use, t), rest) ↔
      use = (if isHidden then .skipped else .exchanged) ∧ t = first ∧ rest = tokens := by
  unfold useDirective
  split
  · rename_i save
    exact absurd save no_save
  · rename_i load
    exact absurd load no_load
  · rw [pure_ok_iff, Prod.mk.injEq, and_assoc]

end

/-! ## What is behind the directives -/

theorem readScalar_iff :
    (readScalar scope start use t).run tokens = (.ok head, rest) ↔
      ∃ mark element c, mark.text = "*" ∧ tokens = mark :: rest ∧
        elementType scope false t = .ok element ∧
        conversion? element.kind (!element.isUnsigned) element.wire = some c ∧
        (use.isLoaded = true → c = .identity ∧ element.kind.isInteger = true) ∧
        head = .whole (.data
          (unlessHidden use (if element.isItem then [] else [Word.ofKind element.kind]))
          ⟨.fixed 1, element.kind, c, use,
            Token.spell (start.take (start.length - rest.length))⟩) := by
  simp only [readScalar, bind_ok_iff, placeholder_iff, lift_ok_iff, conversion_iff]
  constructor
  · rintro ⟨_, _, ⟨mark, text, rfl⟩, element, _, ⟨typed, rfl⟩, c, _, ⟨converted, rfl⟩, h⟩
    split at h
    · simp only [bind_ok_iff, lift_ok_iff, refuseLoad_iff, origin_iff, pure_ok_iff] at h
      obtain ⟨_, _, ⟨unloaded, rfl⟩, _, _, ⟨rfl, rfl⟩, rfl, rfl⟩ := h
      exact ⟨mark, element, c, text, rfl, typed, converted, by simp [unloaded], rfl⟩
    · rename_i fits
      simp only [bind_ok_iff, origin_iff, pure_ok_iff] at h
      obtain ⟨_, _, ⟨rfl, rfl⟩, rfl, rfl⟩ := h
      exact ⟨mark, element, c, text, rfl, typed, converted, fun _ => by simpa using fits, rfl⟩
  · rintro ⟨mark, element, c, text, rfl, typed, converted, loads, rfl⟩
    refine ⟨(), rest, ⟨mark, text, rfl⟩, element, rest, ⟨typed, rfl⟩, c, rest, ⟨converted, rfl⟩, ?_⟩
    split
    · rename_i unfit
      have unloaded : use.isLoaded = false := by
        cases loaded : use.isLoaded with
        | true => simp [loads loaded] at unfit
        | false => rfl
      exact bind_ok_iff.mpr ⟨(), rest, lift_ok_iff.mpr ⟨refuseLoad_iff.mpr unloaded, rfl⟩, rfl⟩
    · rfl

/-- What the reader of a vector does once its length is known. -/
theorem vectorData_iff {type : Token} {count : Count} :
    (do
      let element ← (liftM (elementType scope true type) : Step ElementType)
      let conversion ← conversion start element
      (liftM (refuseLoad use t) : Step Unit)
      let origin ← originFrom start
      return Head.whole
        (.data (unlessHidden use (Word.ofList (some element.kind) :: lengthWords count))
        ⟨count, element.kind, conversion, use, origin⟩) : Step Head).run tokens =
        (.ok head, rest) ↔
      ∃ element c, elementType scope true type = .ok element ∧
        conversion? element.kind (!element.isUnsigned) element.wire = some c ∧
        use.isLoaded = false ∧ rest = tokens ∧
        head = .whole (.data
          (unlessHidden use (Word.ofList (some element.kind) :: lengthWords count))
          ⟨count, element.kind, c, use,
            Token.spell (start.take (start.length - rest.length))⟩) := by
  simp only [bind_ok_iff, lift_ok_iff, conversion_iff, refuseLoad_iff, origin_iff, pure_ok_iff]
  constructor
  · rintro ⟨element, _, ⟨typed, rfl⟩, c, _, ⟨converted, rfl⟩, _, _, ⟨unloaded, rfl⟩, _, _,
      ⟨rfl, rfl⟩, rfl, rfl⟩
    exact ⟨element, c, typed, converted, unloaded, rfl, rfl⟩
  · rintro ⟨element, c, typed, converted, unloaded, rfl, rfl⟩
    exact ⟨element, rest, ⟨typed, rfl⟩, c, rest, ⟨converted, rfl⟩, (), rest, ⟨unloaded, rfl⟩, _,
      rest, ⟨rfl, rfl⟩, rfl, rfl⟩

theorem readVector_iff :
    (readVector scope start use t).run tokens = (.ok head, rest) ↔
      ∃ type length element c count, elementType scope true type = .ok element ∧
        conversion? element.kind (!element.isUnsigned) element.wire = some c ∧
        use.isLoaded = false ∧
        ((length.text = "*" ∧ count = .fromWire ∧ tokens = type :: length :: rest) ∨
          ∃ n mark, Length length.text n ∧ count = .fixed n ∧ mark.text = "*" ∧
            tokens = type :: length :: mark :: rest) ∧
        head = .whole (.data
          (unlessHidden use (Word.ofList (some element.kind) :: lengthWords count))
          ⟨count, element.kind, c, use,
            Token.spell (start.take (start.length - rest.length))⟩) := by
  rw [readVector, bind_ok_iff]
  constructor
  · rintro ⟨type, _, taken, behind⟩
    obtain ⟨count, _, measured, h⟩ := bind_ok_iff.mp behind
    obtain rfl := next_iff.mp taken
    obtain ⟨length, rfl, counted⟩ := vectorLength_iff.mp measured
    dsimp only at h
    split at h
    · rename_i closed
      obtain ⟨_, _, marked, data⟩ := bind_ok_iff.mp h
      obtain ⟨element, c, typed, converted, unloaded, rfl, rfl⟩ := vectorData_iff.mp data
      obtain ⟨mark, text, rfl⟩ := placeholder_iff.mp marked
      obtain ⟨n, told, rfl⟩ := counted.resolve_left fun opened => closed opened.2
      exact ⟨type, length, element, c, _, typed, converted, unloaded,
        .inr ⟨n, mark, told, rfl, text, rfl⟩, rfl⟩
    · rename_i opened
      obtain rfl := not_not.mp opened
      obtain ⟨element, c, typed, converted, unloaded, rfl, rfl⟩ := vectorData_iff.mp h
      obtain ⟨text, -⟩ := counted.resolve_right fun ⟨n, _, told⟩ => by cases told
      exact ⟨type, length, element, c, _, typed, converted, unloaded, .inl ⟨text, rfl, rfl⟩, rfl⟩
  · rintro ⟨type, length, element, c, count, typed, converted, unloaded, counted, rfl⟩
    obtain ⟨text, rfl, rfl⟩ | ⟨n, mark, told, rfl, text, rfl⟩ := counted
    · refine ⟨type, _, rfl, bind_ok_iff.mpr ⟨.fromWire, rest,
        vectorLength_iff.mpr ⟨length, rfl, .inl ⟨text, rfl⟩⟩, ?_⟩⟩
      rw [if_neg (by simp)]
      exact vectorData_iff.mpr ⟨element, c, typed, converted, unloaded, rfl, rfl⟩
    · refine ⟨type, _, rfl, bind_ok_iff.mpr ⟨.fixed n, mark :: rest,
        vectorLength_iff.mpr ⟨length, rfl, .inr ⟨n, told, rfl⟩⟩, ?_⟩⟩
      rw [if_pos (by simp)]
      exact bind_ok_iff.mpr ⟨(), rest, placeholder_iff.mpr ⟨mark, text, rfl⟩,
        vectorData_iff.mpr ⟨element, c, typed, converted, unloaded, rfl, rfl⟩⟩

theorem readItemVector_iff :
    (readItemVector scope use t).run tokens = (.ok head, rest) ↔
      ∃ type length element n, elementType scope true type = .ok element ∧ element.wire = none ∧
        Length length.text n ∧ use.isLoaded = false ∧ tokens = type :: length :: rest ∧
        head = .opening use.isHidden
          (unlessHidden use [Word.ofList (some element.kind), Word.ofTag n])
          (some (element.kind, element.isUnsigned)) n := by
  simp only [readItemVector, bind_ok_iff, next_iff, listLength_iff, lift_ok_iff]
  constructor
  · rintro ⟨type, _, rfl, n, _, ⟨length, told, rfl⟩, element, _, ⟨typed, rfl⟩, h⟩
    split at h
    · simp only [bind_ok_iff, throw_ok_iff, false_and, exists_false] at h
    · rename_i unsized
      simp only [bind_ok_iff, lift_ok_iff, refuseLoad_iff, pure_ok_iff] at h
      obtain ⟨_, _, ⟨unloaded, rfl⟩, rfl, rfl⟩ := h
      exact ⟨type, length, element, n, typed, by simpa using unsized, told, unloaded, rfl, rfl⟩
  · rintro ⟨type, length, element, n, typed, unsized, told, unloaded, rfl, rfl⟩
    refine ⟨type, _, rfl, n, _, ⟨length, told, rfl⟩, element, _, ⟨typed, rfl⟩, ?_⟩
    rw [if_neg (by simp [unsized])]
    exact bind_ok_iff.mpr ⟨(), rest, lift_ok_iff.mpr ⟨refuseLoad_iff.mpr unloaded, rfl⟩, rfl⟩

theorem readList_iff :
    (readList scope use t).run tokens = (.ok head, rest) ↔
      ∃ length n, Length length.text n ∧ use.isLoaded = false ∧ use.isSaved = false ∧
        tokens = length :: rest ∧
        head = .opening use.isHidden (unlessHidden use [Word.ofList none, Word.ofTag n]) none n := by
  simp only [readList, bind_ok_iff, listLength_iff, lift_ok_iff, refuseLoad_iff]
  constructor
  · rintro ⟨n, _, ⟨length, told, rfl⟩, _, _, ⟨unloaded, rfl⟩, h⟩
    split at h
    · exact (throw_ok_iff.mp h).elim
    · rename_i unsaved
      obtain ⟨rfl, rfl⟩ := pure_ok_iff.mp h
      refine ⟨length, n, told, unloaded, ?_, rfl, rfl⟩
      cases use with
      | saved name => exact (unsaved name rfl).elim
      | _ => rfl
  · rintro ⟨length, n, told, unloaded, unsaved, rfl, rfl⟩
    refine ⟨n, _, ⟨length, told, rfl⟩, (), _, ⟨unloaded, rfl⟩, ?_⟩
    cases use with
    | saved => cases unsaved
    | _ => rfl

theorem readDerivation_iff :
    (readDerivation scope start).run tokens = (.ok head, rest) ↔
      ∃ t derivation, Derivation.ofName? t.text = some derivation ∧ tokens = t :: rest ∧
        head = .whole (.derive derivation
          (Token.spell (start.take (start.length - rest.length)))) := by
  simp only [readDerivation, bind_ok_iff, next_iff]
  constructor
  · rintro ⟨t, _, rfl, h⟩
    split at h
    · rename_i derivation known
      simp only [bind_ok_iff, origin_iff, pure_ok_iff] at h
      obtain ⟨_, _, ⟨rfl, rfl⟩, rfl, rfl⟩ := h
      exact ⟨t, derivation, known, rfl, rfl⟩
    · exact (throw_ok_iff.mp h).elim
  · rintro ⟨t, derivation, known, rfl, rfl⟩
    refine ⟨t, rest, rfl, ?_⟩
    rw [known]
    rfl

/-- The head of a field: the directive that computes properties, or other directives with a keyword
behind them. -/
theorem read_ok_iff :
    (Head.read scope).run tokens = (.ok head, rest) ↔
      ∃ first behind, tokens = first :: behind ∧
        (first.text = "compute" ∧
            (readDerivation scope tokens).run behind = (.ok head, rest) ∨
          first.text ≠ "compute" ∧ ∃ isHidden t₁ mid use t mid',
            (skipDirective scope first).run behind = (.ok (isHidden, t₁), mid) ∧
            (useDirective scope isHidden t₁).run mid = (.ok (use, t), mid') ∧
            t.lexeme = .keyword ∧
            (readBody scope tokens use t).run mid' = (.ok head, rest)) := by
  have word (first : Token) : first.isWord "compute" = true ↔ first.text = "compute" :=
    Token.isWord_iff (by decide)
  rw [Head.read, bind_ok_iff]
  constructor
  · rintro ⟨start, _, got, h⟩
    cases got
    obtain ⟨first, behind, taken, h⟩ := bind_ok_iff.mp h
    refine ⟨first, behind, next_iff.mp taken, ?_⟩
    split at h
    · rename_i compute
      exact .inl ⟨(word first).mp compute, h⟩
    · rename_i no_compute
      obtain ⟨⟨isHidden, t₁⟩, mid, skipped, h⟩ := bind_ok_iff.mp h
      obtain ⟨⟨use, t⟩, mid', used, h⟩ := bind_ok_iff.mp h
      dsimp only at h
      split at h
      · obtain ⟨_, _, failed, _⟩ := bind_ok_iff.mp h
        exact (throw_ok_iff.mp failed).elim
      · rename_i keyword
        exact .inr ⟨mt (word first).mpr no_compute, isHidden, t₁, mid, use, t, mid', skipped, used,
          not_not.mp keyword, h⟩
  · rintro ⟨first, behind, rfl, ⟨compute, h⟩ | ⟨no_compute, isHidden, t₁, mid, use, t, mid', skipped,
      used, keyword, h⟩⟩
    · refine ⟨_, _, rfl, bind_ok_iff.mpr ⟨first, behind, rfl, ?_⟩⟩
      rw [if_pos ((word first).mpr compute)]
      exact h
    · refine ⟨_, _, rfl, bind_ok_iff.mpr ⟨first, behind, rfl, ?_⟩⟩
      rw [if_neg (mt (word first).mp no_compute)]
      refine bind_ok_iff.mpr ⟨_, mid, skipped, bind_ok_iff.mpr ⟨_, mid', used, ?_⟩⟩
      dsimp only
      rw [if_neg (not_not_intro keyword)]
      exact h

end Head

end TagWire.Layout
