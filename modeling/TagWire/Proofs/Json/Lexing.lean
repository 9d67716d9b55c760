import TagWire.Proofs.Json.Leaves

/-!
# The lexemes of JSON

The text of a tree falls into the lexemes of its leaves, with brackets around those of an array or object
and commas between its items.

- `Json.Exact`: the trees that are written without loss.
- `Json.lexemes`: the lexemes of a tree.
- `Json.lex_compact`: they are read from its text.
-/

namespace TagWire.Json

/-- The trees that are written without loss: all that have no floating-point numbers, and integers of
64 bits only. -/
inductive Exact : Json → Prop
  | null : Exact .null
  | bool (b : Bool) : Exact (.bool b)
  | int {i : Int} (low : -0x8000000000000000 ≤ i) (high : i < 0x10000000000000000) : Exact (.int i)
  | string (chars : List Char) : Exact (.string chars)
  | array {items} (each : ∀ item ∈ items, Exact item) : Exact (.array items)
  | object {entries : List (List Char × Json)} (each : ∀ entry ∈ entries, Exact entry.2) :
      Exact (.object entries)

mutual

/-- The lexemes of a tree. -/
def lexemes : Json → List Lexeme
  | array items => .mark '[' :: (lexemesOfItems items ++ [.mark ']'])
  | object entries => .mark '\x7b' :: (lexemesOfEntries entries ++ [.mark '\x7d'])
  | string chars => [.string (chars.flatMap escapeChar)]
  | leaf => [.run leaf.writeLeaf]

def lexemesOfItems : List Json → List Lexeme
  | [] => []
  | [item] => item.lexemes
  | item :: rest => item.lexemes ++ .mark ',' :: lexemesOfItems rest

def lexemesOfEntries : List (List Char × Json) → List Lexeme
  | [] => []
  | [(key, item)] => .string (key.flatMap escapeChar) :: .mark ':' :: item.lexemes
  | (key, item) :: rest =>
    .string (key.flatMap escapeChar) :: .mark ':' :: (item.lexemes ++ .mark ',' :: lexemesOfEntries rest)

end

namespace Lexeme

/-- What ends a run and begins something else. -/
def isDelimiter (c : Char) : Bool := isBlank c || isMark c || c = '"'

/-- Behind the end of a run stands something else, or nothing. -/
def EndsRun (rest : List Char) : Prop := rest.head?.all isDelimiter = true

/-- A text is read as lexemes, wherever it does not go on with a run. -/
def Shows (text : List Char) (lexemes : List Lexeme) : Prop :=
  ∀ rest, EndsRun rest → lexFrom .between (text ++ rest) = (lexFrom .between rest).map (lexemes ++ ·)

section
variable {state state' : State} {c : Char} {text others : List Char} {lexemes further : List Lexeme}

theorem lexFrom_cons {done : List Lexeme} (read : step c state = (state', done)) (rest : List Char) :
    lexFrom state (c :: rest) = (lexFrom state' rest).map (done ++ ·) := by
  rw [lexFrom, read]

theorem lexFrom_silent (read : step c state = (state', [])) (rest : List Char) :
    lexFrom state (c :: rest) = lexFrom state' rest := by
  rw [lexFrom_cons read]
  exact Option.map_id'

/-- Text between quotes is gathered, and no lexeme is completed. -/
def Within (text : List Char) : Prop :=
  ∀ raw rest, lexFrom (.inString raw) (text ++ rest) = lexFrom (.inString (text.reverse ++ raw)) rest

theorem within_plain (quote : c ≠ '"') (backslash : c ≠ '\\') : Within [c] := by
  intro raw rest
  have read : step c (.inString raw) = (.inString (c :: raw), []) := by
    rw [step, if_neg quote, if_neg backslash]
  exact lexFrom_silent read rest

theorem within_escaped (c : Char) : Within ['\\', c] := by
  intro raw rest
  have first : step '\\' (.inString raw) = (.escaped ('\\' :: raw), []) := rfl
  have second : step c (.escaped ('\\' :: raw)) = (.inString (c :: '\\' :: raw), []) := rfl
  rw [List.cons_append, List.singleton_append, lexFrom_silent first, lexFrom_silent second]
  rfl

theorem within_append (first : Within text) (second : Within others) : Within (text ++ others) := by
  intro raw rest
  rw [List.append_assoc, first, second, List.reverse_append, List.append_assoc]

theorem within_digit {n : Nat} (small : n < 16) : Within [Nat.digitChar n] := by
  have other : ∀ n < 16, Nat.digitChar n ≠ '"' ∧ Nat.digitChar n ≠ '\\' := by decide
  exact within_plain (other n small).1 (other n small).2

theorem within_escapeChar (c : Char) : Within (escapeChar c) := by
  rw [escapeChar]
  cases letter : escapeLetter? c with
  | some other => exact within_escaped other
  | none =>
    obtain ⟨quote, backslash⟩ := escapeLetter_none letter
    dsimp only
    split_ifs with control
    · have zero : Within ['0'] := within_digit (n := 0) (by decide)
      have digits := within_append (within_digit (n := c.toNat / 16) (by omega))
        (within_digit (n := c.toNat % 16) (by omega))
      exact within_append (within_escaped 'u') (within_append zero (within_append zero digits))
    · exact within_plain quote backslash

/-- What is written for a character holds no quote but an escaped one. -/
theorem within_escape (chars : List Char) : Within (chars.flatMap escapeChar) := by
  induction chars with
  | nil => exact fun _ _ => rfl
  | cons c chars ih =>
    rw [List.flatMap_cons]
    exact within_append (within_escapeChar c) ih

/-- A string is one lexeme. -/
theorem shows_string (chars : List Char) :
    Shows (writeString chars) [.string (chars.flatMap escapeChar)] := by
  intro rest _
  have begun : step '"' .between = (.inString [], []) := rfl
  have ended : step '"' (.inString (chars.flatMap escapeChar).reverse) =
      (.between, [.string (chars.flatMap escapeChar)]) := by
    rw [step, if_pos rfl, List.reverse_reverse]
  rw [writeString, List.cons_append, List.cons_append, List.append_assoc, lexFrom_silent begun,
    within_escape, List.append_nil, List.singleton_append, lexFrom_cons ended]

theorem start_plain (plain : isDelimiter c = false) : start c = (.inRun [c], []) := by
  rw [isDelimiter, Bool.or_eq_false_iff, Bool.or_eq_false_iff] at plain
  obtain ⟨⟨blank, mark⟩, quote⟩ := plain
  rw [start, blank, mark, if_neg (by decide), if_neg (by decide), if_neg (by simpa using quote)]

/-- Characters of a run are gathered up to its end. -/
theorem lexFrom_inRun (plain : ∀ c ∈ text, isDelimiter c = false) (raw : List Char)
    {rest : List Char} (ends : EndsRun rest) : lexFrom (.inRun raw) (text ++ rest) =
      (lexFrom .between rest).map ([.run (raw.reverse ++ text)] ++ ·) := by
  induction text generalizing raw with
  | nil =>
    rw [List.nil_append, List.append_nil]
    cases rest with
    | nil => rfl
    | cons c rest =>
      -- the delimiter ends the run and starts what it would start anyway
      have delimiter : isBlank c ∨ isMark c ∨ c = '"' := by
        have delimiter : isDelimiter c = true := ends
        simpa [isDelimiter, or_assoc] using delimiter
      have ended : step c (.inRun raw) = ((start c).1, .run raw.reverse :: (start c).2) := by
        rw [step, if_pos delimiter]
      have begun : step c .between = ((start c).1, (start c).2) := rfl
      rw [lexFrom_cons ended, lexFrom_cons begun, Option.map_map]
      rfl
  | cons c text ih =>
    obtain ⟨first, others⟩ := List.forall_mem_cons.mp plain
    have inside : step c (.inRun raw) = (.inRun (c :: raw), []) := by
      rw [step, if_neg (by simpa [isDelimiter, or_assoc, and_assoc] using first)]
    rw [List.cons_append, lexFrom_silent inside, ih others, List.reverse_cons,
      List.append_assoc, List.singleton_append]

theorem shows_run (some_chars : text ≠ []) (plain : ∀ c ∈ text, isDelimiter c = false) :
    Shows text [.run text] := by
  intro rest ends
  obtain ⟨c, others, rfl⟩ := List.exists_cons_of_ne_nil some_chars
  obtain ⟨first, further⟩ := List.forall_mem_cons.mp plain
  have begun : step c .between = (.inRun [c], []) := start_plain first
  rw [List.cons_append, lexFrom_silent begun, lexFrom_inRun further [c] ends]
  rfl

theorem step_mark (mark : isMark c = true) : step c .between = (.between, [.mark c]) := by
  have listed : c = '[' ∨ c = ']' ∨ c = ',' ∨ c = ':' ∨ c = '\x7b' ∨ c = '\x7d' := by
    simpa [isMark] using mark
  rcases listed with rfl | rfl | rfl | rfl | rfl | rfl <;> rfl

theorem shows_nil : Shows [] [] := fun _ _ => Option.map_id'.symm

theorem shows_mark (mark : isMark c = true) (behind : Shows others further) :
    Shows (c :: others) (.mark c :: further) := by
  intro rest ends
  rw [List.cons_append, lexFrom_cons (step_mark mark), behind _ ends, Option.map_map]
  rfl

theorem shows_append (first : Shows text lexemes) (mark : isMark c = true)
    (behind : Shows (c :: others) further) : Shows (text ++ c :: others) (lexemes ++ further) := by
  intro rest ends
  have delimiter : EndsRun (c :: others ++ rest) := by
    simp [EndsRun, isDelimiter, mark]
  rw [List.append_assoc, first _ delimiter, behind _ ends, Option.map_map]
  exact congrArg (Option.map · _) (funext fun _ => (List.append_assoc _ _ _).symm)

end

end Lexeme

open Lexeme (Shows isDelimiter)

/-- Digits are part of a run. -/
theorem delimiter_digit {c : Char} (digit : c.isDigit = true) : isDelimiter c = false := by
  rw [Bool.eq_false_iff]
  intro delimiter
  have listed : c = ' ' ∨ c = '\n' ∨ c = '\t' ∨ c = '\r' ∨ c = '[' ∨ c = ']' ∨ c = ',' ∨ c = ':' ∨
      c = '\x7b' ∨ c = '\x7d' ∨ c = '"' := by
    simpa [isDelimiter, Lexeme.isBlank, Lexeme.isMark, or_assoc] using delimiter
  rcases listed with rfl | rfl | rfl | rfl | rfl | rfl | rfl | rfl | rfl | rfl | rfl <;> cases digit

/-- An integer is one run. -/
theorem shows_writeInt (i : Int) : Shows (writeInt i) [.run (writeInt i)] := by
  rw [writeInt_eq]
  apply Lexeme.shows_run
  · simp [Decimal.digitChars, Nat.toDigits_ne_nil]
  · intro c member
    rcases List.mem_append.mp member with sign | digit
    · unfold Decimal.signChars at sign
      split_ifs at sign
      · rw [List.mem_singleton.mp sign]
        rfl
      · cases sign
    · exact delimiter_digit (Decimal.allDigits_digitChars _ c digit)

section
variable {items : List Json} {entries : List (List Char × Json)}

theorem shows_items (each : ∀ item ∈ items, Shows item.compact item.lexemes) :
    Shows (compactItems items) (lexemesOfItems items) := by
  induction items with
  | nil => exact Lexeme.shows_nil
  | cons item others ih =>
    obtain ⟨first, further⟩ := List.forall_mem_cons.mp each
    cases others with
    | nil =>
      rw [compactItems, lexemesOfItems]
      exact first
    | cons next others => exact Lexeme.shows_append first rfl (Lexeme.shows_mark rfl (ih further))

theorem shows_entries (each : ∀ entry ∈ entries, Shows entry.2.compact entry.2.lexemes) :
    Shows (compactEntries entries) (lexemesOfEntries entries) := by
  induction entries with
  | nil => exact Lexeme.shows_nil
  | cons entry others ih =>
    obtain ⟨key, item⟩ := entry
    obtain ⟨first, further⟩ := List.forall_mem_cons.mp each
    have shown : Shows (writeString key ++ ':' :: item.compact)
        (.string (key.flatMap escapeChar) :: .mark ':' :: item.lexemes) :=
      Lexeme.shows_append (Lexeme.shows_string key) rfl (Lexeme.shows_mark rfl first)
    cases others with
    | nil => exact shown
    | cons next others => exact Lexeme.shows_append shown rfl (Lexeme.shows_mark rfl (ih further))

end

theorem shows_word {word : List Char} (some_chars : word ≠ [])
    (plain : (word.all fun c => !isDelimiter c) = true) : Shows word [.run word] :=
  Lexeme.shows_run some_chars (by simpa using plain)

theorem shows_compact {j : Json} (exact : j.Exact) : Shows j.compact j.lexemes := by
  induction exact with
  | null => exact shows_word (by decide) rfl
  | bool b => cases b <;> exact shows_word (by decide) rfl
  | @int i _ _ => exact shows_writeInt i
  | string chars => exact Lexeme.shows_string chars
  | array _ each =>
    exact Lexeme.shows_mark rfl
      (Lexeme.shows_append (shows_items each) rfl (Lexeme.shows_mark rfl Lexeme.shows_nil))
  | object _ each =>
    exact Lexeme.shows_mark rfl
      (Lexeme.shows_append (shows_entries each) rfl (Lexeme.shows_mark rfl Lexeme.shows_nil))

/-- The lexemes of a tree are read from its text. -/
theorem lex_compact {j : Json} (exact : j.Exact) : Lexeme.lex j.compact = some j.lexemes := by
  have shown := shows_compact exact [] rfl
  rwa [List.append_nil, Lexeme.lexFrom, Lexeme.finish, Option.map_some, List.append_nil] at shown

end TagWire.Json
