import Mathlib.Data.List.TakeWhile
import TagWire.Proofs.Grammar.Words

/-!
# Types and their words

A type can be read, and its size outside reached, just where its word is one of the spellings of
the type.

- `Grammar.reaches_iff`: the sizes that some conversion reaches.
- `Head.typed_iff`: the words of types.
-/

namespace TagWire

namespace Grammar

open Layout (ElementType conversion?)

/-- A keyword of a type begins with a letter, and has no colon in it. -/
theorem plain_of_known {word : String} {kind : Kind} (known : Kind.ofKeyword? word = some kind) :
    word ≠ "item" ∧ ':' ∉ word.toList ∧ word.toList.head?.any Char.isAlpha = true := by
  have named (kind : Kind) :
      kind.name ≠ "item" ∧ ':' ∉ kind.name.toList ∧
        kind.name.toList.head?.any Char.isAlpha = true := by
    cases kind <;> decide
  unfold Kind.ofKeyword? at known
  split at known
  any_goals decide
  have name := List.find?_some known
  simp only [decide_eq_true_eq] at name
  exact name ▸ named kind

/-- What some conversion reaches does not depend on the sign. -/
theorem reaches_iff {kind : Kind} {wire : Option Nat} (signed : Bool) :
    Reaches kind wire ↔ ∃ c, conversion? kind signed wire = some c := by
  cases wire with
  | none => simp [Reaches, conversion?]
  | some wire =>
    cases known : kind.size? with
    | none => simp [Reaches, conversion?, known]
    | some size =>
      simp only [Reaches, conversion?, known, Option.some.injEq, exists_eq_left']
      by_cases same : size = wire
      · simp [same]
      · have other : ¬ wire = size := fun eq => same eq.symm
        rw [if_neg same]
        by_cases narrow : kind = .float64 ∧ wire = 4
        · rw [if_pos narrow]
          simp [narrow]
        · rw [if_neg narrow]
          by_cases pad : kind.isNumeral = true ∧ size < wire ∧ wire ≤ 8
          · rw [if_pos pad]
            simp [pad]
          · rw [if_neg pad]
            simp [other, narrow, pad]

/-- Elements are left as they are where they have their own width outside. -/
theorem identity_iff {kind : Kind} {signed : Bool} {wire : Option Nat} {c : Conversion}
    (converted : conversion? kind signed wire = some c) :
    c = .identity ↔ wire = none ∨ wire = kind.size? := by
  cases wire with
  | none =>
    simp only [conversion?, Option.some.injEq] at converted
    simp [converted]
  | some wire =>
    cases known : kind.size? with
    | none => simp [conversion?, known] at converted
    | some size =>
      simp only [conversion?, known] at converted
      simp only [reduceCtorEq, Option.some.injEq, false_or]
      split at converted
      · rename_i same
        cases converted
        simp [same]
      · rename_i other
        have other : ¬ wire = size := fun eq => other eq.symm
        split at converted
        · cases converted
          simp [other]
        · split at converted
          · cases converted
            simp [other]
          · cases converted

/-- A keyword that names no type is no spelling of one. -/
theorem Typed.ne {item : Option (Kind × Bool)} {type : String} {element : ElementType}
    (typed : Typed item type element) {word : String} (plain : ':' ∉ word.toList)
    (unknown : Kind.ofKeyword? word = none) (other : word ≠ "item") : type ≠ word := by
  have unsized {size : String} {wire : Option Nat} (sized : Size size wire)
      (none_there : ':' ∉ size.toList) : size = "" := by
    cases sized with
    | untold => rfl
    | told | plus => simp at none_there
  rintro rfl
  cases typed with
  | keyword known sized =>
    simp only [String.toList_append, List.mem_append, not_or] at plain
    rw [unsized sized plain.2, String.append_empty, known] at unknown
    cases unknown
  | item stands sized =>
    simp only [String.toList_append, List.mem_append, not_or] at plain
    rw [unsized sized plain.2] at other
    exact other rfl

theorem Typed.reaches {item : Option (Kind × Bool)} {type : String} {element : ElementType}
    (typed : Typed item type element) : Reaches element.kind element.wire := by
  cases typed with
  | keyword _ _ reached => exact reached
  | item _ _ reached => exact reached

theorem Typed.letter {item : Option (Kind × Bool)} {type : String} {element : ElementType}
    (typed : Typed item type element) : type.toList.head?.any Char.isAlpha = true := by
  cases typed with
  | keyword known sized =>
    have letter := (plain_of_known known).2.2
    rw [String.toList_append, List.head?_append]
    cases first : String.toList _ |>.head? with
    | none => simp [first] at letter
    | some c => simpa [first] using letter
  | item stands sized =>
    rw [String.toList_append, List.head?_append]
    rfl

end Grammar

namespace Layout

open Grammar (Numeral Size Typed Reaches)

theorem not_digit_of_letter {c : Char} (letter : c.isAlpha = true) : c.isDigit = false := by
  have either : (decide (c.val ≥ 65 ∧ c.val ≤ 90) || (c.val ≥ 97 && c.val ≤ 122)) = true := letter
  have digit : c.isDigit = (c.val ≥ 48 && c.val ≤ 57) := rfl
  rw [digit]
  grind

/-- A word that begins with a letter is a keyword. -/
theorem Token.lexeme_of_letter {t : Token} (letter : t.text.toList.head?.any Char.isAlpha = true) :
    t.lexeme = .keyword := by
  unfold Token.lexeme
  split
  all_goals rename_i spelled
  · simp [spelled] at letter
  · simp [spelled] at letter
  · simp [spelled] at letter
  · simp [spelled] at letter
  · rw [if_neg]
    rintro ⟨some_text, digits⟩
    obtain ⟨c, rest, split⟩ := List.exists_cons_of_ne_nil some_text
    rw [split] at letter digits
    simp only [List.head?_cons, Option.any_some, List.all_cons, Bool.and_eq_true] at letter digits
    rw [not_digit_of_letter letter] at digits
    cases digits.1

namespace Head

theorem splitType_plain {word : List Char} (plain : ':' ∉ word) : splitType word = (word, none) := by
  have none_left : word.dropWhile (· ≠ ':') = [] := by
    rw [List.dropWhile_eq_nil_iff]
    intro c member
    simp only [ne_eq, decide_not, Bool.not_eq_true', decide_eq_false_iff_not]
    rintro rfl
    exact plain member
  rw [splitType, none_left]

theorem splitType_sized {word : List Char} (plain : ':' ∉ word) (size : List Char) :
    splitType (word ++ ':' :: size) = (word, some size) := by
  have all : ∀ c ∈ word, (decide (c ≠ ':')) = true := by
    intro c member
    simp only [ne_eq, decide_not, Bool.not_eq_true', decide_eq_false_iff_not]
    rintro rfl
    exact plain member
  have left : (word ++ ':' :: size).dropWhile (· ≠ ':') = ':' :: size := by
    rw [List.dropWhile_append_of_pos all]
    simp
  have taken : (word ++ ':' :: size).takeWhile (· ≠ ':') = word := by
    rw [List.takeWhile_append_of_pos all]
    simp
  rw [splitType, left]
  dsimp only
  rw [taken]

/-- What a type is divided into makes it up again. -/
theorem splitType_join (text : List Char) :
    text = (splitType text).1 ++ ((splitType text).2.map (':' :: ·)).getD [] := by
  unfold splitType
  split
  · simp
  · rename_i c size left
    have first : c = ':' := by
      have stops := List.head?_dropWhile_not (· ≠ ':') text
      rw [left] at stops
      simpa using stops
    rw [first] at left
    simp [← left]

/-- Some digits that spell a positive number of 64 bits. -/
theorem sized_of_digits {digits : List Char} {n : Nat}
    (h : (if digits ≠ [] ∧ digits.all Char.isDigit ∧ 0 < Decimal.natOfDigits digits ∧
        Decimal.natOfDigits digits < 0x10000000000000000 then
        some (Decimal.natOfDigits digits) else none) = some n) :
    Numeral (String.ofList digits) n := by
  rw [Option.ite_none_right_eq_some] at h
  obtain ⟨⟨some_text, all, _, _⟩, ⟨⟩⟩ := h
  refine ⟨?_, ?_, ?_⟩
  · intro empty
    apply some_text
    simpa using congrArg String.toList empty
  · simpa using all
  · rw [String.toList_ofList]

/-- A size behind a colon is some digits, maybe behind a plus sign. -/
theorem size_of_wireSize {text : List Char} {n : Nat} (h : wireSize? text = some n) :
    Size (String.ofList (':' :: text)) (some n) := by
  unfold wireSize? at h
  dsimp only at h
  split at h
  · rename_i digits
    rw [show String.ofList (':' :: '+' :: digits) = ":+" ++ String.ofList digits by
      simp [← String.toList_inj]]
    exact .plus (sized_of_digits h)
  · rw [show String.ofList (':' :: text) = ":" ++ String.ofList text by
      simp]
    exact .told (sized_of_digits h)

/-- The digits of a size are read. A plus sign is no digit. -/
theorem wireSize_of_size {size : String} {n : Nat} (sized : Size size (some n)) (positive : 0 < n)
    (bound : n < 0x10000000000000000) :
    ∃ text, size.toList = ':' :: text ∧ wireSize? text = some n := by
  cases sized with
  | @told digits _ numeral =>
    obtain ⟨some_text, all, rfl⟩ := numeral
    refine ⟨digits.toList, by simp, ?_⟩
    have no_plus : ∀ rest, digits.toList ≠ '+' :: rest := by
      intro rest spelled
      have digit := all '+' (by rw [spelled]; exact List.mem_cons_self)
      simp [Char.isDigit] at digit
    unfold wireSize?
    dsimp only
    split
    · rename_i rest spelled
      exact absurd spelled (no_plus rest)
    · rw [if_pos]
      exact ⟨by simpa using some_text, List.all_eq_true.mpr all, positive, bound⟩
  | @plus digits _ numeral =>
    obtain ⟨some_text, all, rfl⟩ := numeral
    refine ⟨'+' :: digits.toList, by simp, ?_⟩
    rw [wireSize?]
    exact if_pos ⟨by simpa using some_text, List.all_eq_true.mpr all, positive, bound⟩

variable {scope : Scope} {inVector : Bool} {t : Token} {element : ElementType}

/-- What `item` stands for where types of vectors are told apart. -/
def stands (scope : Scope) (inVector : Bool) : Option (Kind × Bool) :=
  if inVector then none else scope.item

theorem namedType_iff {word : String} {wire : Option Nat} :
    namedType scope inVector t word wire = .ok element ↔
      (∃ kind isUnsigned, word = "item" ∧ stands scope inVector = some (kind, isUnsigned) ∧
        element = ⟨kind, isUnsigned, true, wire⟩) ∨
      (∃ kind, Kind.ofKeyword? word = some kind ∧
        element = ⟨kind, Kind.unsignedKeyword word, false, wire⟩) := by
  unfold namedType stands
  split
  · rename_i item
    have no_kind : Kind.ofKeyword? word = none := by rw [item]; rfl
    split
    · simp [no_kind]
    · split
      · rename_i kind isUnsigned known
        constructor
        · rintro ⟨⟩
          exact .inl ⟨kind, isUnsigned, item, by simp [known], rfl⟩
        · rintro (⟨_, _, -, same, rfl⟩ | ⟨_, named, -⟩)
          · simp only [known, Option.some.injEq] at same
            cases same
            rfl
          · rw [no_kind] at named
            cases named
      · rename_i unknown
        simp [unknown, no_kind]
  · rename_i no_item
    split
    · rename_i kind known
      simp [no_item, known, eq_comm]
    · rename_i unknown
      simp [no_item, unknown]

/-- A type that is read is spelled as one. -/
theorem typed_of_elementType (read : elementType scope inVector t = .ok element)
    (reached : Reaches element.kind element.wire) :
    Typed (stands scope inVector) t.text element := by
  have typed {word size : String} {wire : Option Nat} (sized : Size size wire)
      (named : namedType scope inVector t word wire = .ok element) :
      Typed (stands scope inVector) (word ++ size) element := by
    obtain ⟨kind, isUnsigned, rfl, item, rfl⟩ | ⟨kind, known, rfl⟩ := namedType_iff.mp named
    · exact .item item sized reached
    · exact .keyword known sized reached
  have joined := splitType_join t.text.toList
  unfold elementType at read
  split at read
  · cases read
  · generalize splitType t.text.toList = divided at joined read
    obtain ⟨word, size⟩ := divided
    cases size with
    | none =>
      have text : t.text = String.ofList word ++ "" := by
        apply String.toList_inj.mp
        simpa using joined
      rw [text]
      exact typed .untold read
    | some size =>
      have text : t.text = String.ofList word ++ String.ofList (':' :: size) := by
        apply String.toList_inj.mp
        simpa using joined
      dsimp only at read
      split at read
      · rename_i n wired
        rw [text]
        exact typed (size_of_wireSize wired) read
      · cases read

/-- A spelling of a type is read. -/
theorem elementType_of_typed (typed : Typed (stands scope inVector) t.text element) :
    elementType scope inVector t = .ok element := by
  have read {word size : String} {wire : Option Nat} (plain : ':' ∉ word.toList)
      (text : t.text = word ++ size) (sized : Size size wire) (reached : Reaches element.kind wire) :
      elementType scope inVector t = namedType scope inVector t word wire := by
    rw [elementType, if_neg (not_not_intro (Token.lexeme_of_letter typed.letter)), text,
      String.toList_append]
    cases wire with
    | none =>
      cases sized
      rw [String.toList_empty, List.append_nil, splitType_plain plain]
      simp
    | some n =>
      obtain ⟨kind_size, sized_kind, wide⟩ := reached
      have narrow : 0 < n ∧ n < 0x10000000000000000 := by
        have own : 0 < kind_size ∧ kind_size ≤ 8 := by
          cases kind : element.kind <;> simp [kind, Kind.size?] at sized_kind <;> omega
        omega
      obtain ⟨digits, spelled, wired⟩ := wireSize_of_size sized narrow.1 narrow.2
      rw [spelled, splitType_sized plain]
      dsimp only
      rw [wired]
      simp
  generalize text : t.text = type at typed
  cases typed with
  | keyword known sized reached =>
    rw [read (Grammar.plain_of_known known).2.1 text sized reached, namedType_iff]
    exact .inr ⟨_, known, rfl⟩
  | item item sized reached =>
    rw [read (by decide) text sized reached, namedType_iff]
    exact .inl ⟨_, _, rfl, item, rfl⟩

end Head

end Layout

end TagWire
