import TagWire.Proofs.Grammar.Forms

/-!
# Words and tokens

The tokens of a text are its words, and what a token is can be told from its word.

- `Token.text_scan`: the words of a text are those of its tokens.
- `Token.text_sections`: sections of tokens are sections of words.
- `Token.lexeme_iff`: how the words of each lexeme are spelled.
-/

namespace TagWire.Layout.Token

/-- Spelling by lexeme. What is none of these is a keyword. -/
inductive Spelled : Lexeme → String → Prop
  | separator : Spelled .separator "---"
  | wildcard : Spelled .wildcard "*"
  | save {name} (named : name ≠ "") : Spelled .save (">" ++ name)
  | load {name} (named : name ≠ "") : Spelled .load ("<" ++ name)
  | length {word n} (numeral : Grammar.Numeral word n) : Spelled .length word

variable {t : Token}

/-- A character with some text behind it. -/
theorem eq_append_of_cons {word : String} {sign c : Char} {rest : List Char}
    (spelled : word.toList = sign :: c :: rest) :
    ∃ name, name ≠ "" ∧ word = String.singleton sign ++ name := by
  refine ⟨String.ofList (c :: rest), ?_, ?_⟩
  · intro empty
    simpa using congrArg String.toList empty
  · apply String.toList_inj.mp
    simp [spelled]

theorem numeral_of_digits {word : String} (some_text : word.toList ≠ [])
    (digits : word.toList.all Char.isDigit = true) :
    Grammar.Numeral word (Decimal.natOfDigits word.toList) := by
  refine ⟨?_, List.all_eq_true.mp digits, rfl⟩
  rintro rfl
  exact some_text rfl

theorem spelled_of_lexeme {lexeme : Lexeme} (h : t.lexeme = lexeme)
    (other : lexeme ≠ .keyword) : Spelled lexeme t.text := by
  unfold Token.lexeme at h
  split at h
  · rename_i spelled
    obtain rfl := h
    rw [show t.text = "---" from String.toList_inj.mp spelled]
    exact .separator
  · rename_i spelled
    obtain rfl := h
    rw [show t.text = "*" from String.toList_inj.mp spelled]
    exact .wildcard
  · rename_i spelled
    obtain rfl := h
    obtain ⟨name, named, text⟩ := eq_append_of_cons spelled
    rw [text]
    exact .save named
  · rename_i spelled
    obtain rfl := h
    obtain ⟨name, named, text⟩ := eq_append_of_cons spelled
    rw [text]
    exact .load named
  · split at h
    · rename_i digits
      obtain rfl := h
      exact .length (numeral_of_digits digits.1 digits.2)
    · exact absurd h.symm other

/-- A token of digits is a length. -/
theorem lexeme_of_digits (some_text : t.text.toList ≠ [])
    (digits : ∀ c ∈ t.text.toList, c.isDigit = true) : t.lexeme = .length := by
  have no_sign {c : Char} (sign : c.isDigit = false) {rest : List Char} :
      t.text.toList ≠ c :: rest := by
    intro spelled
    have digit := digits c (by rw [spelled]; exact List.mem_cons_self)
    rw [sign] at digit
    cases digit
  unfold lexeme
  split
  · rename_i spelled
    exact absurd spelled (no_sign (by decide))
  · rename_i spelled
    exact absurd spelled (no_sign (by decide))
  · rename_i spelled
    exact absurd spelled (no_sign (by decide))
  · rename_i spelled
    exact absurd spelled (no_sign (by decide))
  · exact if_pos ⟨some_text, List.all_eq_true.mpr digits⟩

theorem cons_of_ne_empty {word : String} (some_text : word ≠ "") :
    ∃ c rest, word.toList = c :: rest := by
  apply List.exists_cons_of_ne_nil
  intro empty
  exact some_text (String.toList_inj.mp empty)

theorem lexeme_of_spelled {lexeme : Lexeme} (h : Spelled lexeme t.text) : t.lexeme = lexeme := by
  generalize text : t.text = word at h
  cases h with
  | separator | wildcard =>
    unfold Token.lexeme
    rw [text]
    rfl
  | save named | load named =>
    obtain ⟨c, rest, spelled⟩ := cons_of_ne_empty named
    unfold Token.lexeme
    rw [text]
    simp [spelled]
  | length numeral =>
    subst text
    apply lexeme_of_digits _ numeral.2.1
    intro empty
    exact numeral.1 (String.toList_inj.mp empty)

/-- What a token is depends on how it is spelled; a keyword has none of the other spellings. -/
theorem lexeme_iff {lexeme : Lexeme} (other : lexeme ≠ .keyword) :
    t.lexeme = lexeme ↔ Spelled lexeme t.text :=
  ⟨fun h => spelled_of_lexeme h other, lexeme_of_spelled⟩

theorem name_of_text {sign : Char} {name : String} (text : t.text.toList = sign :: name.toList) :
    t.name = name := by
  rw [Token.name, text, List.drop_one, List.tail_cons, String.ofList_toList]

/-! ## Words -/

/-- The words of a text of which the last characters read are at hand, last first. -/
theorem text_scanFrom (before : List Char) {text : List Char} (start : Nat) (rest : List Char)
    (plain : ∀ c ∈ text, isSeparator c = false) :
    (scanFrom before text start rest).map Token.text =
      (((text.reverse ++ rest).splitOnP isSeparator).filter (· ≠ [])).map String.ofList := by
  have single {text : List Char} (plain : ∀ c ∈ text, isSeparator c = false) :
      text.reverse.splitOnP isSeparator = [text.reverse] := by
    apply List.splitOnP_eq_singleton
    intro c member
    exact plain c (List.mem_reverse.mp member)
  have nothing : ∀ c ∈ ([] : List Char), isSeparator c = false := by simp
  induction rest generalizing before text start with
  | nil =>
    rw [scanFrom, List.append_nil, single plain]
    split
    · rename_i empty
      simp [empty]
    · rename_i some_text
      simp [some_text]
  | cons c rest ih =>
    rw [scanFrom]
    cases separates : isSeparator c with
    | true =>
      rw [List.splitOnP_append_cons _ _ separates, single plain]
      rw [if_pos rfl]
      split
      · rename_i empty
        rw [ih _ _ nothing]
        simp [empty]
      · rename_i some_text
        dsimp only
        rw [List.map_cons, ih _ _ nothing]
        simp [some_text]
    | false =>
      rw [if_neg (by decide), ih before start (by simpa [separates] using plain)]
      simp

/-- The tokens of a text are its words. -/
theorem text_scan (grammar : String) : (scan grammar).map Token.text = Grammar.words grammar :=
  text_scanFrom [] 0 grammar.toList (by simp)

/-- Sections of tokens are sections of their words. -/
theorem text_sections (tokens : List Token) :
    (Token.sections tokens).map (·.map Token.text) = (tokens.map Token.text).splitOn "---" := by
  induction tokens with
  | nil => rfl
  | cons t rest ih =>
    have separates : t.lexeme = .separator ↔ t.text = "---" := by
      rw [lexeme_iff (by decide)]
      constructor
      · rintro h
        generalize text : t.text = word at h
        cases h
        rfl
      · intro text
        rw [text]
        exact .separator
    rw [Token.sections, List.map_cons, List.splitOn_cons_eq_if_modifyHead, ← ih]
    by_cases three : t.text = "---"
    · rw [if_pos (separates.mpr three), if_pos (beq_iff_eq.mpr three)]
      rfl
    · rw [if_neg (mt separates.mp three), if_neg (by simpa using three)]
      cases divided : Token.sections rest with
      | nil =>
        rw [divided] at ih
        exact absurd ih.symm (List.splitOn_ne_nil _ _)
      | cons first others => rfl

theorem text_sections_scan (grammar : String) :
    (Token.sections (scan grammar)).map (·.map Token.text) = Grammar.sections grammar := by
  rw [text_sections, text_scan, Grammar.sections]

end TagWire.Layout.Token
