import TagWire.Proofs.Value.Reading

/-!
# Value text, put together

What a text means does not depend on the text around it. Texts with separators between them have the
items of one and then those of the other, and a text in parentheses is one list.

- `Lexeme.shows_of_lex`: the lexemes of a text, wherever it stands.
- `assemble_within`: what is gathered from lexemes, whatever has been gathered before.
- `parse_composed`: texts in a row, and a text in parentheses.
-/

namespace TagWire.Value

open Lexeme (EndsRun Shows checkNesting lex lexFrom)

namespace Lexeme

/-- A text that can be read from some state on is read so in front of any other text that does not go
on with a run. -/
theorem lexFrom_append {state : State} {text : List Char} {lexemes : List Lexeme}
    (read : lexFrom state text = .ok lexemes) {rest : List Char} (ends : EndsRun rest) :
    lexFrom state (text ++ rest) = (lexFrom .between rest).map (lexemes ++ ·) := by
  induction text generalizing state lexemes with
  | nil =>
    -- at its end the text may be between two lexemes, or in a run that the rest ends
    cases state with
    | between =>
      cases read
      cases shown : lexFrom .between rest <;> simp [shown, Except.map]
    | inRun raw =>
      cases read
      exact lexFrom_inRun raw ends
    | inVocab | inBlob | inString | escaped => cases read
  | cons c text ih =>
    obtain ⟨⟨state', done⟩, stepped, read⟩ := Error.bind_ok read
    obtain ⟨others, further, read⟩ := Error.bind_ok read
    cases read
    simp only [List.cons_append, lexFrom_cons stepped, ih further]
    cases lexFrom .between rest <;> simp [Except.map]

/-- What a text is read as alone, it is read as wherever it stands. -/
theorem shows_of_lex {text : List Char} {lexemes : List Lexeme} (read : lex text = .ok lexemes) :
    Shows text lexemes :=
  fun _ ends => lexFrom_append read ends

/-- Separators in front of a text mean nothing. -/
theorem lexFrom_separators {blank : List Char} (separators : ∀ c ∈ blank, isSeparator c = true)
    (rest : List Char) : lexFrom .between (blank ++ rest) = lexFrom .between rest := by
  induction blank with
  | nil => rfl
  | cons c blank ih =>
    simp only [List.forall_mem_cons] at separators
    have skipped : step c .between = .ok (.between, []) := by simp [step, start, separators.1]
    rw [List.cons_append, lexFrom_silent skipped, ih separators.2]

/-- Separators end a run. -/
theorem endsRun_separators {blank : List Char} (some_blank : blank ≠ [])
    (separators : ∀ c ∈ blank, isSeparator c = true) (rest : List Char) :
    EndsRun (blank ++ rest) := by
  obtain ⟨c, blank, rfl⟩ := List.exists_cons_of_ne_nil some_blank
  simp [EndsRun, isDelimiter, separators c List.mem_cons_self]

/-- Parentheses that close each other do so with more lists around them. -/
theorem checkNesting_append {depth : Nat} {lexemes : List Lexeme}
    (nested : checkNesting depth lexemes = .ok ()) (outer : Nat) (more : List Lexeme) :
    checkNesting (depth + outer) (lexemes ++ more) = checkNesting outer more := by
  induction lexemes generalizing depth with
  | nil =>
    cases depth with
    | zero => simp
    | succ depth => cases nested
  | cons l rest ih =>
    by_cases opening : l = .opening
    · subst opening
      have opened : checkNesting (depth + 1) rest = .ok () := by
        cases depth <;> exact nested
      have deeper := ih opened
      rw [Nat.add_right_comm] at deeper
      cases total : depth + outer <;> simpa [checkNesting, total] using deeper
    by_cases closing : l = .closing
    · subst closing
      cases depth with
      | zero => cases nested
      | succ depth =>
        rw [Nat.add_right_comm]
        exact ih nested
    · have item : l.IsItem := ⟨opening, closing⟩
      rw [checkNesting_item item] at nested
      rw [List.cons_append, checkNesting_item item]
      exact ih nested

end Lexeme

/-! ## Items on top of others -/

/-- The same lists under way, on top of items that have been gathered `before` in the lowest of them
and of the lists around it. -/
inductive Atop (before : List Value) (outer : List (List Value)) :
    List Value → List (List Value) → List Value → List (List Value) → Prop
  | lowest (items : List Value) : Atop before outer items [] (items ++ before) outer
  | higher (items : List Value) {siblings siblings' : List Value} {around around' : List (List Value)}
      (below : Atop before outer siblings around siblings' around') :
      Atop before outer items (siblings :: around) items (siblings' :: around')

section
variable {before items items' gathered : List Value} {outer around around' : List (List Value)}

theorem Atop.push (atop : Atop before outer items around items' around') (v : Value) :
    Atop before outer (v :: items) around (v :: items') around' := by
  cases atop with
  | lowest => exact .lowest (v :: items)
  | higher _ below => exact .higher (v :: items) below

/-- What is gathered from lexemes comes on top of what has been gathered before. -/
theorem assemble_atop {lexemes : List Lexeme} (read : assemble lexemes items around = .ok gathered)
    (atop : Atop before outer items around items' around') (more : List Lexeme) :
    assemble (lexemes ++ more) items' around' = assemble more (gathered.reverse ++ before) outer := by
  induction lexemes generalizing items around items' around' with
  | nil =>
    cases atop with
    | lowest =>
      cases read
      simp
    | higher => cases read
  | cons l rest ih =>
    by_cases opening : l = .opening
    · rw [opening] at read ⊢
      exact ih read (.higher [] atop)
    by_cases closing : l = .closing
    · rw [closing] at read ⊢
      cases atop with
      | lowest => cases read
      | higher _ below => exact ih read (below.push _)
    · have item : l.IsItem := ⟨opening, closing⟩
      rw [assemble_item item] at read
      obtain ⟨v, spelled, read⟩ := Error.bind_ok read
      rw [List.cons_append, assemble_item item, spelled]
      exact ih read (atop.push v)

theorem assemble_within {lexemes : List Lexeme} (read : assemble lexemes [] [] = .ok gathered)
    (before : List Value) (outer : List (List Value)) (more : List Lexeme) :
    assemble (lexemes ++ more) before outer =
      assemble more (gathered.reverse ++ before) outer :=
  assemble_atop read (.lowest []) more

end

/-- A text can be read if it falls into lexemes, its parentheses close each other, and each item can
be read. -/
theorem parse_ok_iff {text : String} {items : List Value} :
    parse text = .ok (list items) ↔ ∃ lexemes, lex text.toList = .ok lexemes ∧
      checkNesting 0 lexemes = .ok () ∧ assemble lexemes [] [] = .ok items := by
  constructor
  · intro read
    obtain ⟨items', read, same⟩ := Error.bind_ok read
    obtain ⟨lexemes, lexed, read⟩ := Error.bind_ok read
    obtain ⟨_, nested, gathered⟩ := Error.bind_ok read
    cases same
    exact ⟨lexemes, Error.mapError_ok lexed, Error.mapError_ok nested, gathered⟩
  · rintro ⟨lexemes, lexed, nested, gathered⟩
    simp [parse, parseItems, lexed, nested, gathered, Except.mapError, bind, Except.bind, pure,
      Except.pure]

/-- A text followed by another one, with separators between them, has the items of the one and then
those of the other. A text in parentheses is one list of its items. -/
theorem parse_composed {a : String} {xs : List Value} (first : parse a = .ok (list xs)) :
    (∀ {b between : String} {ys : List Value}, between ≠ "" →
        (∀ c ∈ between.toList, isSeparator c = true) → parse b = .ok (list ys) →
        parse (a ++ between ++ b) = .ok (list (xs ++ ys))) ∧
      parse ("(" ++ a ++ ")") = .ok (list [list xs]) := by
  obtain ⟨front, front_lexed, front_nested, front_gathered⟩ := parse_ok_iff.mp first
  have shown : Shows a.toList front := Lexeme.shows_of_lex front_lexed
  constructor
  · intro b between ys some_blank separators second
    obtain ⟨back, back_lexed, back_nested, back_gathered⟩ := parse_ok_iff.mp second
    have blank : between.toList ≠ [] := by simpa using some_blank
    refine parse_ok_iff.mpr ⟨front ++ back, ?_, ?_, ?_⟩
    · have ends := Lexeme.endsRun_separators blank separators b.toList
      simp only [String.toList_append, List.append_assoc, lex, shown _ ends,
        Lexeme.lexFrom_separators separators]
      rw [← lex, back_lexed]
      rfl
    · simpa [back_nested] using Lexeme.checkNesting_append front_nested 0 back
    · have gathered := assemble_within back_gathered xs.reverse [] []
      simp only [List.append_nil, assemble, List.reverse_append, List.reverse_reverse] at gathered
      simpa [gathered] using assemble_within front_gathered [] [] back
  · refine parse_ok_iff.mpr ⟨.opening :: (front ++ [.closing]), ?_, ?_, ?_⟩
    · have ends : EndsRun [')'] := rfl
      have opening : Lexeme.step '(' .between = .ok (.between, [.opening]) := rfl
      have closing : lexFrom .between [')'] = .ok [.closing] := rfl
      simp [lex, Lexeme.lexFrom_cons opening, shown _ ends, closing, Except.map]
    · exact Lexeme.checkNesting_append front_nested 1 [.closing]
    · simpa [assemble] using assemble_within front_gathered [] [[]] [.closing]

/-- A word ends at a separator as it does at the end of the text, and a parenthesis in a string closes
no list. -/
theorem parse_composed_nested :
    parse "-7 [ab]x" = .ok (list [int32 (-7), vocab 25185, string [120]]) ∧
      parse "2e1(\"a)b\" \x7b0a\x7d)" =
        .ok (list [float64 0x4034000000000000, list [string [97, 41, 98], blob [10]]]) ∧
      parse ("-7 [ab]x" ++ ",\t" ++ "2e1(\"a)b\" \x7b0a\x7d)") =
        .ok (list [int32 (-7), vocab 25185, string [120], float64 0x4034000000000000,
          list [string [97, 41, 98], blob [10]]]) ∧
      parse ("(" ++ "-7 [ab]x" ++ ")") =
        .ok (list [list [int32 (-7), vocab 25185, string [120]]]) := by
  have first : parse "-7 [ab]x" = .ok (list [int32 (-7), vocab 25185, string [120]]) := rfl
  have second : parse "2e1(\"a)b\" \x7b0a\x7d)" =
      .ok (list [float64 0x4034000000000000, list [string [97, 41, 98], blob [10]]]) := rfl
  have separators : ∀ c ∈ ",\t".toList, isSeparator c = true := by simp [isSeparator]
  have some_blank : ",\t" ≠ "" := by decide
  obtain ⟨joined, enclosed⟩ := parse_composed first
  exact ⟨first, second, joined some_blank separators second, enclosed⟩

end TagWire.Value
