import TagWire.Proofs.Value.Lexing

/-!
# Values, written and read

The text of a value is one item, and each primitive in it is read from its own lexeme.

- `Value.reread`: what is read for a value.
- `Value.parse_text`: it is what the text of the value gives.
- `Value.parse_unbracketed`: what is read has no closing bracket in a vocab.
- `Value.parse_text_iff`: the values that are read back.
-/

namespace TagWire.Value

mutual

/-- What is read from the lexemes of a value. -/
def reread : Value → Except Error Value
  | list items => do return list (← rereadAll items)
  | v => ofLexeme v.lexeme

def rereadAll : List Value → Except Error (List Value)
  | [] => .ok []
  | v :: rest => do
    let w ← v.reread
    let others ← rereadAll rest
    return w :: others

end

theorem reread_primitive {v : Value} (primitive : v.isList = false) :
    v.reread = ofLexeme v.lexeme := by
  cases v with
  | list items => cases primitive
  | _ => rfl

open Lexeme (checkNesting lex)

/-- A lexeme that is no parenthesis. -/
def Lexeme.IsItem (l : Lexeme) : Prop := l ≠ .opening ∧ l ≠ .closing

theorem isItem_lexeme {v : Value} (primitive : v.isList = false) : v.lexeme.IsItem := by
  cases v with
  | list items => cases primitive
  | _ => exact ⟨nofun, nofun⟩

section
variable {P : Value → Prop} {v : Value} {items : List Value}

theorem checkNesting_item {l : Lexeme} (item : l.IsItem) (depth : Nat) (more : List Lexeme) :
    checkNesting depth (l :: more) = checkNesting depth more := by
  cases l with
  | opening => exact absurd rfl item.1
  | closing => exact absurd rfl item.2
  | _ => cases depth <;> rfl

theorem checkNesting_items (each : ∀ v ∈ items, ∀ depth more,
      checkNesting depth (v.lexemes ++ more) = checkNesting depth more)
    (depth : Nat) (more : List Lexeme) :
    checkNesting depth (allLexemes items ++ more) = checkNesting depth more := by
  induction items with
  | nil => rfl
  | cons v others ih =>
    rw [allLexemes, List.append_assoc, each v List.mem_cons_self,
      ih fun v member => each v (List.mem_cons_of_mem _ member)]

/-- The parentheses of a value close each other. -/
theorem checkNesting_lexemes (leaves : v.Leaves P) (depth : Nat) (more : List Lexeme) :
    checkNesting depth (v.lexemes ++ more) = checkNesting depth more := by
  induction leaves generalizing depth more with
  | leaf primitive =>
    rw [lexemes_primitive primitive]
    exact checkNesting_item (isItem_lexeme primitive) depth more
  | @list items _ each =>
    have opened : checkNesting depth (.opening :: (allLexemes items ++ (.closing :: more))) =
        checkNesting (depth + 1) (allLexemes items ++ (.closing :: more)) := by
      cases depth <;> rfl
    rw [lexemes, List.cons_append, List.append_assoc, List.singleton_append, opened,
      checkNesting_items each]
    rfl

theorem assemble_item {l : Lexeme} (item : l.IsItem) (more : List Lexeme) (before : List Value)
    (outer : List (List Value)) : assemble (l :: more) before outer = (do
      let w ← ofLexeme l
      assemble more (w :: before) outer) := by
  cases l with
  | opening => exact absurd rfl item.1
  | closing => exact absurd rfl item.2
  | quoted raw =>
    rw [assemble, ofLexeme]
    cases Quoted.unescape raw <;> rfl
  | _ => rfl

theorem assemble_items (each : ∀ v ∈ items, ∀ more before outer,
      assemble (v.lexemes ++ more) before outer = (do
        let w ← v.reread
        assemble more (w :: before) outer))
    (more : List Lexeme) (before : List Value) (outer : List (List Value)) :
    assemble (allLexemes items ++ more) before outer = (do
      let others ← rereadAll items
      assemble more (others.reverse ++ before) outer) := by
  induction items generalizing before with
  | nil => rfl
  | cons v others ih =>
    rw [allLexemes, List.append_assoc, each v List.mem_cons_self, rereadAll]
    cases v.reread with
    | error e => rfl
    | ok w =>
      change assemble (allLexemes others ++ more) (w :: before) outer = _
      rw [ih fun v member => each v (List.mem_cons_of_mem _ member)]
      cases rereadAll others with
      | error e => rfl
      | ok others => simp [bind, Except.bind, pure, Except.pure]

/-- The lexemes of a value are gathered as one item. -/
theorem assemble_lexemes (leaves : v.Leaves P) (more : List Lexeme) (before : List Value)
    (outer : List (List Value)) : assemble (v.lexemes ++ more) before outer = (do
      let w ← v.reread
      assemble more (w :: before) outer) := by
  induction leaves generalizing more before outer with
  | leaf primitive =>
    rw [lexemes_primitive primitive, reread_primitive primitive]
    exact assemble_item (isItem_lexeme primitive) more before outer
  | @list items _ each =>
    rw [lexemes, List.cons_append, List.append_assoc, List.singleton_append, assemble,
      assemble_items each, reread]
    cases rereadAll items with
    | error e => rfl
    | ok others => simp [bind, Except.bind, pure, Except.pure, assemble]

/-- The text of a value gives one item. -/
theorem parse_text (unbracketed : v.Leaves Unbracketed) : parse v.text = (do
    let w ← v.reread
    return list [w]) := by
  have lexed : lex v.print = .ok v.lexemes := by
    have shown := lex_print unbracketed [] rfl
    rw [List.append_nil] at shown
    rw [lex, shown]
    exact congrArg Except.ok (List.append_nil _)
  have nested : checkNesting 0 v.lexemes = .ok () := by
    rw [← List.append_nil v.lexemes, checkNesting_lexemes unbracketed]
    rfl
  have gathered := assemble_lexemes unbracketed [] [] []
  rw [List.append_nil] at gathered
  have items : parseItems v.print = (do return [← v.reread]) := by
    rw [parseItems, lexed]
    change (do
      let _ ← (checkNesting 0 v.lexemes).mapError malformed
      assemble v.lexemes [] []) = _
    rw [nested]
    exact gathered
  rw [parse, text, String.toList_ofList, items]
  cases v.reread <;> rfl

theorem rereadAll_iff : rereadAll items = .ok items ↔ ∀ v ∈ items, v.reread = .ok v := by
  induction items with
  | nil => exact ⟨fun _ => List.forall_mem_nil _, fun _ => rfl⟩
  | cons v others ih =>
    rw [List.forall_mem_cons, ← ih, rereadAll]
    cases v.reread with
    | error e => exact ⟨nofun, nofun⟩
    | ok w =>
      cases rereadAll others with
      | error e => exact ⟨nofun, nofun⟩
      | ok further => simp [bind, Except.bind, pure, Except.pure]

theorem leaves_primitive (primitive : v.isList = false) : v.Leaves P ↔ P v := by
  refine ⟨?_, .leaf primitive⟩
  rintro (⟨_, holds⟩ | _)
  · exact holds
  · cases primitive

/-- A value is read as itself just where all its primitives are legible. -/
theorem reread_iff (unbracketed : v.Leaves Unbracketed) :
    v.reread = .ok v ↔ v.Leaves Legible := by
  induction unbracketed with
  | leaf primitive unbracketed =>
    rw [reread_primitive primitive, leaves_primitive primitive]
    exact ofLexeme_iff unbracketed primitive
  | @list items _ each =>
    have all : rereadAll items = .ok items ↔ (Value.list items).Leaves Legible := by
      rw [rereadAll_iff, leaves_list]
      exact forall₂_congr each
    rw [← all, reread]
    cases rereadAll items with
    | error e => exact ⟨nofun, nofun⟩
    | ok others => simp [bind, Except.bind, pure, Except.pure]

/-- A vocab that is read has no closing bracket if its text has none. -/
theorem ofLexeme_unbracketed {l : Lexeme} (plain : l.Plain) (read : ofLexeme l = .ok v) :
    v.Leaves Unbracketed := by
  cases l with
  | opening => cases read
  | closing => cases read
  | vocab text =>
    obtain ⟨-, rfl⟩ := ofVocabText_ok.mp read
    refine .leaf rfl fun code same => ?_
    rw [same] at read
    exact bracket_notMem_code plain read
  | blob digits =>
    rw [ofLexeme, ofBlobDigits] at read
    split at read
    · cases read
      exact .leaf rfl (by rintro _ ⟨⟩)
    · cases read
  | quoted raw =>
    obtain ⟨bytes, -, read⟩ := Error.bind_ok read
    cases read
    exact .leaf rfl (by rintro _ ⟨⟩)
  | run text =>
    rcases ofRun_ok read with ⟨_, rfl⟩ | ⟨_, rfl⟩ | ⟨_, rfl⟩ | ⟨_, rfl⟩
    all_goals exact .leaf rfl (by rintro _ ⟨⟩)

theorem assemble_unbracketed {lexemes : List Lexeme} {before : List Value}
    {outer : List (List Value)} (plain : ∀ l ∈ lexemes, l.Plain)
    (gathered : ∀ v ∈ before, v.Leaves Unbracketed)
    (around : ∀ siblings ∈ outer, ∀ v ∈ siblings, v.Leaves Unbracketed)
    (read : assemble lexemes before outer = .ok items) : ∀ v ∈ items, v.Leaves Unbracketed := by
  induction lexemes generalizing before outer with
  | nil =>
    cases outer with
    | nil =>
      cases read
      exact fun v member => gathered v (List.mem_reverse.mp member)
    | cons siblings outer => cases read
  | cons l more ih =>
    obtain ⟨first, further⟩ := List.forall_mem_cons.mp plain
    by_cases opening : l = .opening
    · rw [opening] at read
      exact ih further (List.forall_mem_nil _) (List.forall_mem_cons.mpr ⟨gathered, around⟩) read
    by_cases closing : l = .closing
    · rw [closing] at read
      cases outer with
      | nil => cases read
      | cons siblings outer =>
        obtain ⟨beside, around⟩ := List.forall_mem_cons.mp around
        have closed : (list before.reverse).Leaves Unbracketed :=
          .list fun v member => gathered v (List.mem_reverse.mp member)
        exact ih further (List.forall_mem_cons.mpr ⟨closed, beside⟩) around read
    · rw [assemble_item ⟨opening, closing⟩] at read
      obtain ⟨w, spelled, read⟩ := Error.bind_ok read
      exact ih further
        (List.forall_mem_cons.mpr ⟨ofLexeme_unbracketed first spelled, gathered⟩) around read

/-- Whatever is read has no closing bracket in a vocab. -/
theorem parse_unbracketed {text : String} (read : parse text = .ok v) : v.Leaves Unbracketed := by
  obtain ⟨items, read, same⟩ := Error.bind_ok read
  obtain ⟨lexemes, lexed, read⟩ := Error.bind_ok read
  obtain ⟨_, -, gathered⟩ := Error.bind_ok read
  cases same
  exact .list (assemble_unbracketed (Lexeme.lex_plain (Error.mapError_ok lexed))
    (List.forall_mem_nil _) (List.forall_mem_nil _) gathered)

/-- Legible primitives are unbracketed. -/
theorem Legible.unbracketed (legible : v.Legible) : v.Unbracketed := by
  rintro code rfl
  obtain _ | _ | _ | _ | _ | ⟨spelled, plain⟩ := legible
  rw [spelled, List.mem_append, not_or]
  exact ⟨fun member => (plain _ member).2.2 rfl,
    fun zero => absurd (List.eq_of_mem_replicate zero) (by decide)⟩

/-- The text of a value is read as that value alone just where all its primitives are legible. -/
theorem parse_text_iff (v : Value) : parse v.text = .ok (list [v]) ↔ v.Leaves Legible := by
  constructor
  · intro read
    -- a vocab with a bracket would end early, but then the value itself could not be read
    have unbracketed : v.Leaves Unbracketed :=
      leaves_list.mp (parse_unbracketed read) v List.mem_cons_self
    rw [parse_text unbracketed] at read
    obtain ⟨w, reread, same⟩ := Error.bind_ok read
    cases same
    exact (reread_iff unbracketed).mp reread
  · intro legible
    have unbracketed := legible.mono Legible.unbracketed
    rw [parse_text unbracketed, (reread_iff unbracketed).mpr legible]
    rfl

end

end TagWire.Value
