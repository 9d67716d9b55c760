import TagWire.Proofs.Json.Lexing

/-!
# JSON, written and read

A tree is gathered from its lexemes if its brackets do not nest too deep, and no tree that is read has
brackets that do.

- `Json.height`: how deep the brackets of a tree nest.
- `Json.parse_compact`: a tree is read from its text.
- `Json.height_parse`: what is read is no deeper than may be.
-/

namespace TagWire.Json

mutual

/-- How deep the brackets of a tree nest. -/
def height : Json → Nat
  | array items => heightOfItems items + 1
  | object entries => heightOfEntries entries + 1
  | _ => 0

def heightOfItems : List Json → Nat
  | [] => 0
  | item :: rest => max item.height (heightOfItems rest)

def heightOfEntries : List (List Char × Json) → Nat
  | [] => 0
  | (_, item) :: rest => max item.height (heightOfEntries rest)

end

theorem heightOfItems_le {items : List Json} {bound : Nat} :
    heightOfItems items ≤ bound ↔ ∀ item ∈ items, item.height ≤ bound := by
  induction items with
  | nil => exact ⟨fun _ => List.forall_mem_nil _, fun _ => Nat.zero_le bound⟩
  | cons item rest ih => rw [heightOfItems, Nat.max_le, ih, List.forall_mem_cons]

theorem heightOfEntries_le {entries : List (List Char × Json)} {bound : Nat} :
    heightOfEntries entries ≤ bound ↔ ∀ entry ∈ entries, entry.2.height ≤ bound := by
  induction entries with
  | nil => exact ⟨fun _ => List.forall_mem_nil _, fun _ => Nat.zero_le bound⟩
  | cons entry rest ih => rw [heightOfEntries, Nat.max_le, ih, List.forall_mem_cons]

namespace Builder

/-- Whether a value may come next. -/
def TakesValue (b : Builder) : Prop := b.expect = .value ∨ b.expect = .valueOrEnd

/-- A tree is gathered from lexemes wherever a value may come and the brackets are not too deep. -/
def Gathers (j : Json) (lexemes : List Lexeme) : Prop :=
  ∀ (b : Builder) (more : List Lexeme), b.TakesValue → b.frames.length + j.height ≤ maxDepth →
    run b (lexemes ++ more) = (b.put j).bind (run · more)

section
variable {b : Builder} {more : List Lexeme}

theorem run_cons {b' : Builder} {l : Lexeme} (stepped : b.step? l = some b') (more : List Lexeme) :
    run b (l :: more) = run b' more := by
  rw [run, stepped, Option.bind_some]

theorem gathers_single {j : Json} {l : Lexeme} (step : ∀ b : Builder, b.TakesValue → b.step? l = b.put j) :
    Gathers j [l] := by
  intro b more takes _
  rw [List.singleton_append, run, step b takes]

theorem gathers_string (chars : List Char) :
    Gathers (.string chars) [.string (chars.flatMap escapeChar)] := by
  refine gathers_single fun b takes => ?_
  have no_key : ¬(b.expect = .key ∨ b.expect = .keyOrEnd) := by
    rcases takes with value | value <;> simp [value]
  rw [step?, unescape_escape, Option.bind_some, string?, if_neg no_key]

theorem gathers_int {i : Int} (low : -0x8000000000000000 ≤ i) (high : i < 0x10000000000000000) :
    Gathers (.int i) [.run (writeInt i)] := by
  refine gathers_single fun b _ => ?_
  have number := number_writeInt low high
  have other {word : List Char} (no_number : number? word = none) : writeInt i ≠ word := by
    rintro rfl
    rw [number] at no_number
    cases no_number
  rw [step?, run?, if_neg (other rfl), if_neg (other rfl), if_neg (other rfl), number, Option.bind_some]

theorem put_takes (takes : b.TakesValue) (j : Json) :
    b.put j = put ⟨b.frames, .value, b.result⟩ j := by
  obtain ⟨frames, expect, result⟩ := b
  rcases takes with rfl | rfl <;> rfl

variable {frames : List Frame} {expect : Expect} {result : Option Json}

/-- Items are gathered into the array that is open. -/
theorem run_items {items before : List Json} (some_items : items ≠ [])
    (each : ∀ item ∈ items, Gathers item item.lexemes)
    (takes : TakesValue ⟨.array before :: frames, expect, result⟩)
    (shallow : frames.length + 1 + heightOfItems items ≤ maxDepth) :
    run ⟨.array before :: frames, expect, result⟩ (lexemesOfItems items ++ more) =
      run ⟨.array (items.reverse ++ before) :: frames, .commaOrEnd, result⟩ more := by
  induction items generalizing before expect with
  | nil => exact absurd rfl some_items
  | cons item others ih =>
    obtain ⟨first, further⟩ := List.forall_mem_cons.mp each
    rw [heightOfItems] at shallow
    have gathered (more : List Lexeme) :
        run ⟨.array before :: frames, expect, result⟩ (item.lexemes ++ more) =
          run ⟨.array (item :: before) :: frames, .commaOrEnd, result⟩ more := by
      rw [first _ _ takes (by dsimp only [List.length_cons]; omega), put_takes takes]
      rfl
    cases others with
    | nil =>
      rw [lexemesOfItems, gathered]
      rfl
    | cons next others =>
      have comma : step? ⟨.array (item :: before) :: frames, .commaOrEnd, result⟩ (.mark ',') =
          some ⟨.array (item :: before) :: frames, .value, result⟩ := rfl
      rw [lexemesOfItems, List.append_assoc, gathered, List.cons_append, run_cons comma,
        ih (List.cons_ne_nil _ _) further (.inl rfl) (by omega), List.reverse_cons (a := item),
        List.append_assoc, List.singleton_append]
      exact List.cons_ne_nil next others

/-- Entries are gathered into the object that is open. -/
theorem run_entries {entries before : List (List Char × Json)} {key : List Char}
    (some_entries : entries ≠ []) (each : ∀ entry ∈ entries, Gathers entry.2 entry.2.lexemes)
    (takes : expect = .key ∨ expect = .keyOrEnd)
    (shallow : frames.length + 1 + heightOfEntries entries ≤ maxDepth) :
    run ⟨.object before key :: frames, expect, result⟩ (lexemesOfEntries entries ++ more) =
      run ⟨.object (entries.reverse ++ before) [] :: frames, .commaOrEnd, result⟩ more := by
  induction entries generalizing before key expect with
  | nil => exact absurd rfl some_entries
  | cons entry others ih =>
    obtain ⟨name, item⟩ := entry
    obtain ⟨first, further⟩ := List.forall_mem_cons.mp each
    rw [heightOfEntries] at shallow
    have named : step? ⟨.object before key :: frames, expect, result⟩
        (.string (name.flatMap escapeChar)) =
          some ⟨.object before name :: frames, .colon, result⟩ := by
      rw [step?, unescape_escape, Option.bind_some, string?, if_pos takes]
    have gathered (more : List Lexeme) :
        run ⟨.object before key :: frames, expect, result⟩
            (.string (name.flatMap escapeChar) :: .mark ':' :: (item.lexemes ++ more)) =
          run ⟨.object ((name, item) :: before) [] :: frames, .commaOrEnd, result⟩ more := by
      have colon : step? ⟨.object before name :: frames, .colon, result⟩ (.mark ':') =
          some ⟨.object before name :: frames, .value, result⟩ := rfl
      rw [run_cons named, run_cons colon,
        first _ _ (.inl rfl) (by dsimp only [List.length_cons]; omega)]
      rfl
    cases others with
    | nil =>
      rw [lexemesOfEntries, List.cons_append, List.cons_append, gathered]
      rfl
    | cons next others =>
      have comma :
          step? ⟨.object ((name, item) :: before) [] :: frames, .commaOrEnd, result⟩ (.mark ',') =
            some ⟨.object ((name, item) :: before) [] :: frames, .key, result⟩ := rfl
      rw [lexemesOfEntries, List.cons_append, List.cons_append, List.append_assoc, gathered,
        List.cons_append, run_cons comma, ih (List.cons_ne_nil _ _) further (.inl rfl) (by omega),
        List.reverse_cons (a := (name, item)),
        List.append_assoc, List.singleton_append]
      exact List.cons_ne_nil next others

theorem open_takes (takes : b.TakesValue) (shallow : b.frames.length < maxDepth) (frame : Frame)
    (expect : Expect) : b.open? frame expect = some ⟨frame :: b.frames, expect, b.result⟩ := by
  rw [open?, if_pos ⟨takes, shallow⟩]

theorem close_array (ended : expect = .commaOrEnd ∨ expect = .valueOrEnd) (items : List Json) :
    step? ⟨.array items :: frames, expect, result⟩ (.mark ']') =
      put ⟨frames, .value, result⟩ (.array items.reverse) := by
  rcases ended with rfl | rfl <;> rfl

theorem close_object (ended : expect = .commaOrEnd ∨ expect = .keyOrEnd)
    (entries : List (List Char × Json)) (key : List Char) :
    step? ⟨.object entries key :: frames, expect, result⟩ (.mark '\x7d') =
      put ⟨frames, .value, result⟩ (.object entries.reverse) := by
  rcases ended with rfl | rfl <;> rfl

theorem gathers_array {items : List Json} (each : ∀ item ∈ items, Gathers item item.lexemes) :
    Gathers (.array items) (lexemes (.array items)) := by
  intro b more takes shallow
  rw [height] at shallow
  have opened : b.step? (.mark '[') = some ⟨.array [] :: b.frames, .valueOrEnd, b.result⟩ :=
    open_takes takes (by omega) _ _
  have closed (expect : Expect) (ended : expect = .commaOrEnd ∨ expect = .valueOrEnd) :
      step? ⟨.array items.reverse :: b.frames, expect, b.result⟩ (.mark ']') = b.put (.array items) := by
    rw [put_takes takes, close_array ended, List.reverse_reverse]
  rw [lexemes, List.cons_append, List.append_assoc, List.singleton_append, run_cons opened]
  by_cases no_items : items = []
  · subst items
    rw [lexemesOfItems, List.nil_append, run]
    exact congrArg (Option.bind · _) (closed _ (.inr rfl))
  · rw [run_items no_items each (.inr rfl) (by omega), List.append_nil, run, closed _ (.inl rfl)]

theorem gathers_object {entries : List (List Char × Json)}
    (each : ∀ entry ∈ entries, Gathers entry.2 entry.2.lexemes) :
    Gathers (.object entries) (lexemes (.object entries)) := by
  intro b more takes shallow
  rw [height] at shallow
  have opened : b.step? (.mark '\x7b') = some ⟨.object [] [] :: b.frames, .keyOrEnd, b.result⟩ :=
    open_takes takes (by omega) _ _
  have closed (expect : Expect) (ended : expect = .commaOrEnd ∨ expect = .keyOrEnd) :
      step? ⟨.object entries.reverse [] :: b.frames, expect, b.result⟩ (.mark '\x7d') =
        b.put (.object entries) := by
    rw [put_takes takes, close_object ended, List.reverse_reverse]
  rw [lexemes, List.cons_append, List.append_assoc, List.singleton_append, run_cons opened]
  by_cases no_entries : entries = []
  · subst entries
    rw [lexemesOfEntries, List.nil_append, run]
    exact congrArg (Option.bind · _) (closed _ (.inr rfl))
  · rw [run_entries no_entries each (.inr rfl) (by omega), List.append_nil, run, closed _ (.inl rfl)]

/-- A tree is gathered from its lexemes. -/
theorem gathers_lexemes {j : Json} (exact : j.Exact) : Gathers j j.lexemes := by
  induction exact with
  | null => exact gathers_single fun _ _ => rfl
  | bool b => cases b <;> exact gathers_single fun _ _ => rfl
  | int low high => exact gathers_int low high
  | string chars => exact gathers_string chars
  | array _ each => exact gathers_array each
  | object _ each => exact gathers_object each

end

end Builder

/-- A tree is read from its text if its brackets do not nest too deep. -/
theorem parse_compact {j : Json} (exact : j.Exact) (shallow : j.height ≤ maxDepth) :
    parse? j.compact = some j := by
  have gathered := Builder.gathers_lexemes exact {} [] (.inl rfl) (by simpa using shallow)
  rw [List.append_nil] at gathered
  rw [parse?, lex_compact exact]
  change (do
    let builder ← Builder.run {} j.lexemes
    if builder.frames.isEmpty then builder.result else none) = _
  rw [gathered]
  rfl

/-- What a frame holds has brackets that nest no deeper than may be, `depth` brackets in. -/
def Frame.Shallow (depth : Nat) : Frame → Prop
  | .array items => ∀ item ∈ items, depth + item.height ≤ maxDepth
  | .object entries _ => ∀ entry ∈ entries, depth + entry.2.height ≤ maxDepth

/-- No brackets that are open nest too deep, nor does anything between them. -/
def ShallowFrames : List Frame → Prop
  | [] => True
  | frame :: rest => rest.length < maxDepth ∧ frame.Shallow (rest.length + 1) ∧ ShallowFrames rest

section
variable {j : Json}

theorem height_magnitude {magnitude : Option Nat} {negative : Bool}
    (read : magnitude.map (ofMagnitude negative) = some j) : j.height = 0 := by
  obtain ⟨_, -, rfl⟩ := Option.map_eq_some_iff.mp read
  rfl

theorem height_whole {negative : Bool} {d : Digits} (read : ofWhole negative d = some j) :
    j.height = 0 := by
  unfold ofWhole at read
  split_ifs at read
  · exact height_magnitude read
  all_goals
    cases read
    rfl

/-- A number has no brackets. -/
theorem height_number {text : List Char} (read : number? text = some j) : j.height = 0 := by
  obtain ⟨numeral, -, read⟩ := Option.bind_eq_some_iff.mp read
  dsimp only at read
  split_ifs at read
  · cases read
  · split at read
    · exact height_whole read
    · cases read
    · obtain ⟨_, -, read⟩ := Option.bind_eq_some_iff.mp read
      exact height_magnitude read

end

namespace Builder

/-- Nothing under way has brackets that nest too deep. -/
structure Shallow (b : Builder) : Prop where
  frames : ShallowFrames b.frames
  result : ∀ j, b.result = some j → j.height ≤ maxDepth

section
variable {b b' : Builder} {j : Json}

theorem Shallow.depth (shallow : b.Shallow) : b.frames.length ≤ maxDepth := by
  have frames := shallow.frames
  cases opened : b.frames with
  | nil => exact Nat.zero_le _
  | cons frame rest =>
    rw [opened] at frames
    exact frames.1

theorem Shallow.put (shallow : b.Shallow) (within : b.frames.length + j.height ≤ maxDepth)
    (done : b.put j = some b') : b'.Shallow := by
  obtain ⟨frames, result⟩ := shallow
  unfold Builder.put at done
  split_ifs at done
  split at done
  · rename_i opened
    cases done
    rw [opened] at within
    refine ⟨frames, fun _ same => ?_⟩
    cases same
    simpa using within
  · rename_i items rest opened
    cases done
    rw [opened] at within frames
    obtain ⟨room, each, outer⟩ := frames
    rw [List.length_cons] at within
    exact ⟨⟨room, List.forall_mem_cons.mpr ⟨within, each⟩, outer⟩, result⟩
  · rename_i entries key rest opened
    cases done
    rw [opened] at within frames
    obtain ⟨room, each, outer⟩ := frames
    rw [List.length_cons] at within
    exact ⟨⟨room, List.forall_mem_cons.mpr ⟨within, each⟩, outer⟩, result⟩

/-- What has no brackets can be put anywhere. -/
theorem Shallow.leaf (shallow : b.Shallow) (flat : j.height = 0) (done : b.put j = some b') :
    b'.Shallow :=
  shallow.put (by rw [flat]; exact shallow.depth) done

theorem Shallow.open (shallow : b.Shallow) {frame : Frame} {expect : Expect}
    (empty : ∀ depth, frame.Shallow depth) (done : b.open? frame expect = some b') : b'.Shallow := by
  unfold open? at done
  split_ifs at done with room
  cases done
  exact ⟨⟨room.2, empty _, shallow.frames⟩, shallow.result⟩

theorem Shallow.close (shallow : b.Shallow) {bracket : Char} (done : b.close? bracket = some b') :
    b'.Shallow := by
  obtain ⟨frames, result⟩ := shallow
  unfold close? at done
  split at done
  · rename_i items rest opened
    split_ifs at done
    rw [opened] at frames
    obtain ⟨room, each, outer⟩ := frames
    have inside : heightOfItems items.reverse ≤ maxDepth - (rest.length + 1) :=
      heightOfItems_le.mpr fun item member => by
        have := each item (List.mem_reverse.mp member)
        omega
    refine Shallow.put (b := ⟨rest, .value, b.result⟩) ⟨outer, result⟩ ?_ done
    rw [height]
    dsimp only
    omega
  · rename_i entries key rest opened
    split_ifs at done
    rw [opened] at frames
    obtain ⟨room, each, outer⟩ := frames
    have inside : heightOfEntries entries.reverse ≤ maxDepth - (rest.length + 1) :=
      heightOfEntries_le.mpr fun entry member => by
        have := each entry (List.mem_reverse.mp member)
        omega
    refine Shallow.put (b := ⟨rest, .value, b.result⟩) ⟨outer, result⟩ ?_ done
    rw [height]
    dsimp only
    omega
  · cases done

theorem Shallow.comma (shallow : b.Shallow) (done : b.comma? = some b') : b'.Shallow := by
  unfold comma? at done
  split_ifs at done
  split at done <;> cases done <;> exact ⟨shallow.frames, shallow.result⟩

theorem Shallow.mark (shallow : b.Shallow) {c : Char} (done : b.mark? c = some b') : b'.Shallow := by
  have no_items (depth : Nat) : (Frame.array []).Shallow depth := List.forall_mem_nil _
  have no_entries (depth : Nat) : (Frame.object [] []).Shallow depth := List.forall_mem_nil _
  unfold mark? at done
  split_ifs at done with array object comma colon expected
  · exact shallow.open no_items done
  · exact shallow.open no_entries done
  · exact shallow.comma done
  · cases done
    exact ⟨shallow.frames, shallow.result⟩
  · exact shallow.close done

theorem Shallow.string (shallow : b.Shallow) {chars : List Char} (done : b.string? chars = some b') :
    b'.Shallow := by
  unfold string? at done
  split_ifs at done
  · split at done
    · rename_i entries key rest opened
      cases done
      have frames := shallow.frames
      rw [opened] at frames
      exact ⟨frames, shallow.result⟩
    · cases done
  · exact shallow.leaf rfl done

theorem Shallow.run (shallow : b.Shallow) {text : List Char} (done : b.run? text = some b') :
    b'.Shallow := by
  unfold run? at done
  split_ifs at done
  · exact shallow.leaf rfl done
  · exact shallow.leaf rfl done
  · exact shallow.leaf rfl done
  · obtain ⟨j, number, done⟩ := Option.bind_eq_some_iff.mp done
    exact shallow.leaf (height_number number) done

/-- No step makes brackets nest too deep. -/
theorem Shallow.step (shallow : b.Shallow) {l : Lexeme} (done : b.step? l = some b') :
    b'.Shallow := by
  cases l with
  | mark c => exact shallow.mark done
  | string raw =>
    obtain ⟨chars, -, done⟩ := Option.bind_eq_some_iff.mp done
    exact shallow.string done
  | run text => exact shallow.run done

theorem Shallow.steps (shallow : b.Shallow) {lexemes : List Lexeme}
    (done : b.run lexemes = some b') : b'.Shallow := by
  induction lexemes generalizing b with
  | nil =>
    cases done
    exact shallow
  | cons l rest ih =>
    obtain ⟨next, stepped, done⟩ := Option.bind_eq_some_iff.mp done
    exact ih (shallow.step stepped) done

end

end Builder

/-- What is read has no brackets that nest too deep. -/
theorem height_parse {text : List Char} {j : Json} (read : parse? text = some j) :
    j.height ≤ maxDepth := by
  obtain ⟨lexemes, -, read⟩ := Option.bind_eq_some_iff.mp read
  obtain ⟨b, built, read⟩ := Option.bind_eq_some_iff.mp read
  have start : Builder.Shallow {} := ⟨trivial, nofun⟩
  split_ifs at read
  exact (start.steps built).result j read

end TagWire.Json
