import TagWire.Proofs.Value.Primitives

/-!
# The lexemes of values

The text of a value falls into the lexemes of its primitives, with parentheses around those of a list,
if no vocab in it has a closing bracket. No text has vocabs with one.

- `Value.Leaves`: a property of all primitives of a value.
- `Value.lexemes`: the lexemes of a value.
- `Value.lex_print`: they are read from its text.
- `Lexeme.lex_plain`: no vocab that is read has a closing bracket.
-/

namespace TagWire.Value

/-- A property of all primitives of a value, whatever lists they stand in. -/
inductive Leaves (P : Value → Prop) : Value → Prop
  | leaf {v} (primitive : v.isList = false) (holds : P v) : Leaves P v
  | list {items} (each : ∀ v ∈ items, Leaves P v) : Leaves P (.list items)

theorem Leaves.mono {P Q : Value → Prop} (weaker : ∀ {v}, P v → Q v) {v : Value}
    (leaves : Leaves P v) : Leaves Q v := by
  induction leaves with
  | leaf primitive holds => exact .leaf primitive (weaker holds)
  | list _ ih => exact .list ih

theorem leaves_list {P : Value → Prop} {items : List Value} :
    Leaves P (.list items) ↔ ∀ v ∈ items, Leaves P v := by
  refine ⟨?_, .list⟩
  rintro (⟨⟨⟩⟩ | each)
  exact each

mutual

/-- The lexemes of a value. -/
def lexemes : Value → List Lexeme
  | list items => .opening :: (allLexemes items ++ [.closing])
  | v => [v.lexeme]

def allLexemes : List Value → List Lexeme
  | [] => []
  | v :: rest => v.lexemes ++ allLexemes rest

end

theorem lexemes_primitive {v : Value} (primitive : v.isList = false) : v.lexemes = [v.lexeme] := by
  cases v with
  | list items => cases primitive
  | _ => rfl

namespace Lexeme

/-- Behind the end of a run stands something else, or nothing. -/
def EndsRun (rest : List Char) : Prop := rest.head?.all isDelimiter = true

/-- A text is read as lexemes, wherever it does not go on with a run. -/
def Shows (text : List Char) (lexemes : List Lexeme) : Prop :=
  ∀ rest, EndsRun rest → lexFrom .between (text ++ rest) = (lexFrom .between rest).map (lexemes ++ ·)

section
variable {state state' : State} {c : Char} {text : List Char}

theorem lexFrom_cons {done : List Lexeme} (read : step c state = .ok (state', done))
    (rest : List Char) : lexFrom state (c :: rest) = (lexFrom state' rest).map (done ++ ·) := by
  rw [lexFrom, read]
  change (do let others ← lexFrom state' rest; pure (done ++ others)) = _
  cases lexFrom state' rest <;> rfl

theorem lexFrom_silent (read : step c state = .ok (state', [])) (rest : List Char) :
    lexFrom state (c :: rest) = lexFrom state' rest := by
  rw [lexFrom_cons read]
  cases lexFrom state' rest <;> rfl

/-- Inside a lexeme characters are gathered, and nothing is completed. -/
theorem lexFrom_inside {inside : List Char → State}
    (each : ∀ c ∈ text, ∀ raw, step c (inside raw) = .ok (inside (c :: raw), []))
    (raw rest : List Char) :
    lexFrom (inside raw) (text ++ rest) = lexFrom (inside (text.reverse ++ raw)) rest := by
  induction text generalizing raw with
  | nil => rfl
  | cons c text ih =>
    rw [List.cons_append, lexFrom_silent (each c List.mem_cons_self raw),
      ih (fun c member => each c (List.mem_cons_of_mem _ member)), List.reverse_cons,
      List.append_assoc, List.singleton_append]

theorem isDelimiter_iff :
    isDelimiter c = true ↔ c ∈ [' ', '\t', '\r', '\n', ',', '(', ')', '"', '[', '\x7b'] := by
  simp [isDelimiter, isSeparator, or_assoc]

theorem start_plain (plain : isDelimiter c = false) : start c = (.inRun [c], []) := by
  have other {d : Char} (delimiter : isDelimiter d = true) : c ≠ d := by
    rintro rfl
    rw [plain] at delimiter
    cases delimiter
  have no_separator : isSeparator c = false := (Bool.or_eq_false_iff.mp plain).1
  rw [start, no_separator, if_neg (by decide), if_neg (other (by decide)), if_neg (other (by decide)),
    if_neg (other (by decide)), if_neg (other (by decide)), if_neg (other (by decide))]

/-- A run ends where something else begins. -/
theorem lexFrom_inRun (raw : List Char) {rest : List Char} (ends : EndsRun rest) :
    lexFrom (.inRun raw) rest = (lexFrom .between rest).map ([.run raw.reverse] ++ ·) := by
  cases rest with
  | nil => rfl
  | cons c rest =>
    -- the delimiter ends the run and starts what it would start anyway
    have delimiter : isDelimiter c = true := ends
    have ended : step c (.inRun raw) = .ok ((start c).1, .run raw.reverse :: (start c).2) := by
      rw [step, if_pos delimiter]
    have begun : step c .between = .ok ((start c).1, (start c).2) := rfl
    rw [lexFrom_cons ended, lexFrom_cons begun]
    cases lexFrom (start c).1 rest <;> rfl

theorem shows_run (some_chars : text ≠ []) (plain : ∀ c ∈ text, isDelimiter c = false) :
    Shows text [.run text] := by
  intro rest ends
  obtain ⟨c, others, rfl⟩ := List.exists_cons_of_ne_nil some_chars
  have begun : step c .between = .ok (.inRun [c], []) := by
    rw [step, start_plain (plain c List.mem_cons_self)]
  have inside : ∀ d ∈ others, ∀ raw, step d (.inRun raw) = .ok (.inRun (d :: raw), []) := by
    intro d member raw
    rw [step, if_neg (by simp [plain d (List.mem_cons_of_mem _ member)])]
  rw [List.cons_append, lexFrom_silent begun, lexFrom_inside inside, lexFrom_inRun _ ends]
  simp

theorem shows_blank {others : List Char} {lexemes further : List Lexeme}
    (first : Shows text lexemes) (second : Shows others further) :
    Shows (text ++ ' ' :: others) (lexemes ++ further) := by
  intro rest ends
  have blank : step ' ' .between = .ok (.between, []) := rfl
  have ended : EndsRun (' ' :: (others ++ rest)) := rfl
  rw [List.append_assoc, List.cons_append, first _ ended, lexFrom_silent blank, second _ ends]
  cases lexFrom .between rest with
  | error fault => rfl
  | ok last => exact congrArg Except.ok (List.append_assoc _ _ _).symm

/-- What stands between two characters is one lexeme, if it is gathered between them. -/
theorem shows_enclosed {first last : Char} {inside : List Char → State} {lexeme : Lexeme}
    (begun : step first .between = .ok (inside [], []))
    (gathered : ∀ rest, lexFrom (inside []) (text ++ rest) = lexFrom (inside text.reverse) rest)
    (ended : step last (inside text.reverse) = .ok (.between, [lexeme])) :
    Shows (first :: text ++ [last]) [lexeme] := by
  intro rest _
  rw [List.cons_append, List.cons_append, List.append_assoc, lexFrom_silent begun, gathered,
    List.singleton_append, lexFrom_cons ended]

theorem shows_vocab (plain : ']' ∉ text) : Shows ('[' :: text ++ [']']) [.vocab text] := by
  have inside : ∀ c ∈ text, ∀ raw, step c (.inVocab raw) = .ok (.inVocab (c :: raw), []) := by
    intro c member raw
    rw [step, if_neg]
    rintro rfl
    exact plain member
  have ended : step ']' (.inVocab text.reverse) = .ok (.between, [.vocab text]) := by
    rw [step, if_pos rfl, List.reverse_reverse]
  refine shows_enclosed rfl (fun rest => ?_) ended
  rw [lexFrom_inside inside, List.append_nil]

theorem shows_blob (hex : ∀ c ∈ text, isHexDigit c = true) :
    Shows ('\x7b' :: text ++ ['\x7d']) [.blob text] := by
  have inside : ∀ c ∈ text, ∀ raw, step c (.inBlob raw) = .ok (.inBlob (c :: raw), []) := by
    intro c member raw
    rw [step, if_neg, if_pos (hex c member)]
    rintro rfl
    exact absurd (hex _ member) (by decide)
  have ended : step '\x7d' (.inBlob text.reverse) = .ok (.between, [.blob text]) := by
    rw [step, if_pos rfl, List.reverse_reverse]
  refine shows_enclosed rfl (fun rest => ?_) ended
  rw [lexFrom_inside inside, List.append_nil]

/-- Text between quotes that does not end the string. -/
def Within (text : List Char) : Prop :=
  ∀ raw rest, lexFrom (.inString raw) (text ++ rest) = lexFrom (.inString (text.reverse ++ raw)) rest

theorem within_append {others : List Char} (first : Within text) (further : Within others) :
    Within (text ++ others) := by
  intro raw rest
  rw [List.append_assoc, first, further, List.reverse_append, List.append_assoc]

theorem within_flatMap {α : Type} {parts : List α} {f : α → List Char}
    (each : ∀ part ∈ parts, Within (f part)) : Within (parts.flatMap f) := by
  induction parts with
  | nil => exact fun _ _ => rfl
  | cons part parts ih =>
    rw [List.flatMap_cons]
    exact within_append (each part List.mem_cons_self)
      (ih fun part member => each part (List.mem_cons_of_mem _ member))

theorem within_plain (quote : c ≠ '"') (backslash : c ≠ '\\') : Within [c] := by
  intro raw rest
  have read : step c (.inString raw) = .ok (.inString (c :: raw), []) := by
    rw [step, if_neg quote, if_neg backslash]
  rw [List.singleton_append, lexFrom_silent read]
  rfl

theorem within_escaped (c : Char) : Within ['\\', c] := by
  intro raw rest
  have first : step '\\' (.inString raw) = .ok (.escaped ('\\' :: raw), []) := rfl
  have second : step c (.escaped ('\\' :: raw)) = .ok (.inString (c :: '\\' :: raw), []) := rfl
  rw [List.cons_append, List.singleton_append, lexFrom_silent first, lexFrom_silent second]
  rfl

theorem within_digit {n : Nat} (small : n < 16) : Within [Hex.digit n] := by
  have other : ∀ n < 16, Hex.digit n ≠ '"' ∧ Hex.digit n ≠ '\\' := by decide
  exact within_plain (other n small).1 (other n small).2

/-- What is written for a piece holds no quote but an escaped one. -/
theorem within_piece (piece : Utf8.Piece) : Within (Quoted.escapePiece piece) := by
  cases piece with
  | char c =>
    rw [Quoted.escapePiece, Quoted.escapeChar]
    split_ifs with quote backslash
    · exact within_escaped _
    · exact within_escaped _
    · exact within_escaped _
    · exact within_escaped _
    · exact within_escaped _
    · exact within_plain quote backslash
  | faulty bytes =>
    refine within_flatMap fun b _ => ?_
    obtain ⟨high, low⟩ := Hex.digits_lt b
    exact within_append (within_escaped 'x') (within_append (within_digit high) (within_digit low))

theorem shows_quoted (bytes : Bytes) :
    Shows ('"' :: Quoted.escape bytes ++ ['"']) [.quoted (Quoted.escape bytes)] := by
  have inside : Within (Quoted.escape bytes) := within_flatMap fun piece _ => within_piece piece
  have ended : step '"' (.inString (Quoted.escape bytes).reverse) =
      .ok (.between, [.quoted (Quoted.escape bytes)]) := by
    rw [step, if_pos rfl, List.reverse_reverse]
  refine shows_enclosed rfl (fun rest => ?_) ended
  rw [inside, List.append_nil]

/-- A vocab that is under way has no closing bracket. -/
def State.Plain : State → Prop
  | .inVocab text => ']' ∉ text
  | _ => True

def Plain : Lexeme → Prop
  | .vocab text => ']' ∉ text
  | _ => True

theorem start_plainness (c : Char) : (start c).1.Plain ∧ ∀ l ∈ (start c).2, l.Plain := by
  unfold start
  split_ifs <;> simp [State.Plain, Plain]

theorem step_plainness {done : List Lexeme} (read : step c state = .ok (state', done))
    (plain : state.Plain) : state'.Plain ∧ ∀ l ∈ done, l.Plain := by
  cases state with
  | between =>
    have begun : start c = (state', done) := Except.ok.inj read
    have plain := start_plainness c
    rwa [begun] at plain
  | inVocab text =>
    rw [step] at read
    split_ifs at read with bracket
    · cases read
      have whole : (vocab text.reverse).Plain := fun member => plain (List.mem_reverse.mp member)
      exact ⟨trivial, List.forall_mem_singleton.mpr whole⟩
    · cases read
      refine ⟨?_, List.forall_mem_nil _⟩
      rintro (_ | ⟨_, member⟩)
      · exact bracket rfl
      · exact plain member
  | inBlob digits =>
    rw [step] at read
    split_ifs at read <;> cases read <;> simp [State.Plain, Plain]
  | inString raw =>
    rw [step] at read
    split_ifs at read <;> cases read <;> simp [State.Plain, Plain]
  | escaped raw =>
    cases read
    exact ⟨trivial, List.forall_mem_nil _⟩
  | inRun text =>
    rw [step] at read
    split_ifs at read
    · cases read
      obtain ⟨next, others⟩ := start_plainness c
      exact ⟨next, List.forall_mem_cons.mpr ⟨trivial, others⟩⟩
    · cases read
      exact ⟨trivial, List.forall_mem_nil _⟩

theorem lexFrom_plainness {lexemes : List Lexeme} (read : lexFrom state text = .ok lexemes)
    (plain : state.Plain) : ∀ l ∈ lexemes, l.Plain := by
  induction text generalizing state lexemes with
  | nil =>
    cases state <;> cases read <;> simp [Plain]
  | cons c rest ih =>
    obtain ⟨⟨state', done⟩, stepped, read⟩ := Error.bind_ok read
    obtain ⟨others, further, read⟩ := Error.bind_ok read
    cases read
    obtain ⟨next, completed⟩ := step_plainness stepped plain
    exact List.forall_mem_append.mpr ⟨completed, ih further next⟩

/-- No vocab that is read has a closing bracket. -/
theorem lex_plain {lexemes : List Lexeme} (read : lex text = .ok lexemes) : ∀ l ∈ lexemes, l.Plain :=
  lexFrom_plainness read trivial

end

end Lexeme

open Lexeme

theorem delimiter_digit {c : Char} (digit : c.isDigit = true) : isDelimiter c = false := by
  have others : ∀ d ∈ [' ', '\t', '\r', '\n', ',', '(', ')', '"', '[', '\x7b'], (!d.isDigit) = true :=
    List.all_eq_true.mp rfl
  cases delimiter : isDelimiter c with
  | false => rfl
  | true =>
    have other := others c (isDelimiter_iff.mp delimiter)
    rw [digit] at other
    cases other

/-- An integer is one run. -/
theorem shows_int (i : Int) : Shows (printInt i) [.run (printInt i)] := by
  have digits {c : Char} (member : c ∈ Nat.toDigits 10 i.natAbs) : isDelimiter c = false :=
    delimiter_digit (Nat.isDigit_of_mem_toDigits (by decide) (by decide) member)
  apply shows_run
  · unfold printInt
    split
    · exact List.cons_ne_nil _ _
    · exact Nat.toDigits_ne_nil
  · intro c member
    unfold printInt at member
    split at member
    · rcases List.mem_cons.mp member with rfl | member
      · rfl
      · exact digits member
    · exact digits member

/-- A float is one run, be it a number or a word. -/
theorem shows_float (f : Binary.Format) (bits : Nat) :
    Shows (floatStyle.write f bits) [.run (floatStyle.write f bits)] := by
  have words : ∀ d ∈ ['.', 'e', '-'] ++ ("NaN".toList ++ "inf".toList), (!isDelimiter d) = true :=
    List.all_eq_true.mp rfl
  apply shows_run (Decimal.Style.write_ne_nil (by decide) (by decide) f bits)
  intro c member
  have letter (within : c ∈ ['.', 'e', '-'] ++ ("NaN".toList ++ "inf".toList)) :
      isDelimiter c = false := by
    simpa using words c within
  rcases Decimal.Style.mem_write member with digit | sign | ⟨⟨⟩⟩ | nan | infinity
  · exact delimiter_digit digit
  · exact letter (List.mem_append_left _ sign)
  · exact letter (List.mem_append_right _ (List.mem_append_left _ nan))
  · exact letter (List.mem_append_right _ (List.mem_append_right _ infinity))

/-- A primitive is one lexeme. -/
theorem shows_lexeme {v : Value} (unbracketed : v.Unbracketed) (primitive : v.isList = false) :
    Shows v.print [v.lexeme] := by
  cases v with
  | int8 i => exact shows_int _
  | int16 i => exact shows_int _
  | int32 i => exact shows_int _
  | int64 i => exact shows_int _
  | float32 bits => exact shows_float _ _
  | float64 bits => exact shows_float _ _
  | vocab code => exact shows_vocab (bracket_notMem_unpack (unbracketed code rfl))
  | string bytes => exact shows_quoted bytes
  | blob bytes =>
    apply shows_blob
    have digits : ∀ n < 16, isHexDigit (Hex.digit n) = true := by decide
    intro c member
    obtain ⟨b, -, shown⟩ := List.mem_flatMap.mp member
    obtain ⟨high, low⟩ := Hex.digits_lt b
    rcases List.mem_cons.mp shown with rfl | shown
    · exact digits _ high
    · rw [List.mem_singleton.mp shown]
      exact digits _ low
  | list items => cases primitive

theorem shows_items {items : List Value} (each : ∀ v ∈ items, Shows v.print v.lexemes) :
    Shows (printItems items) (allLexemes items) := by
  induction items with
  | nil =>
    intro rest _
    rw [printItems, allLexemes]
    cases shown : lexFrom .between rest <;> exact shown
  | cons v others ih =>
    have first := each v List.mem_cons_self
    rw [allLexemes]
    cases others with
    | nil =>
      rw [printItems, allLexemes, List.append_nil]
      exact first
    | cons w others =>
      exact shows_blank first (ih fun v member => each v (List.mem_cons_of_mem _ member))

/-- The lexemes of a value are read from its text. -/
theorem lex_print {v : Value} (unbracketed : v.Leaves Unbracketed) : Shows v.print v.lexemes := by
  induction unbracketed with
  | leaf primitive unbracketed =>
    rw [lexemes_primitive primitive]
    exact shows_lexeme unbracketed primitive
  | @list items _ each =>
    -- the closing parenthesis ends whatever the last item is
    intro rest ends
    have opening : step '(' .between = .ok (.between, [.opening]) := rfl
    have closing : step ')' .between = .ok (.between, [.closing]) := rfl
    have closed : EndsRun (')' :: rest) := rfl
    rw [print, List.append_assoc, List.cons_append, lexFrom_cons opening, List.singleton_append,
      shows_items each _ closed, lexFrom_cons closing, lexemes]
    cases lexFrom .between rest with
    | error fault => rfl
    | ok others => simp [Except.map]

end TagWire.Value
