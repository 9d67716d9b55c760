import TagWire.Layout.Sample
import TagWire.Proofs.Layout.Readers
import TagWire.Proofs.Layout.Parsing
import TagWire.Proofs.Layout.Respelling
import TagWire.Proofs.Tagged.RoundTrip

/-!
# Grammars of samples

The grammar of a sample can be compiled, and declares a single field of the shape of the sample.

- `Value.sampleField`: the field that fits a value.
- `Value.bySample`: induction over values as their grammars are made.
- `Parse.readField_sample`: the words of the grammar are read as the field.
- `compileSections_sample`: the layout of the grammar.
-/

namespace TagWire

open Layout (Token)

namespace Field

/-- A single value of a kind. -/
def scalar (kind : Kind) : Field :=
  .data [Word.ofKind kind] ⟨.fixed 1, kind, .identity, .exchanged, " ".intercalate [kind.name, "*"]⟩

/-- A list of so many values of a kind. -/
def vector (kind : Kind) (n : Nat) : Field :=
  .data [Word.ofList (some kind), Word.ofTag n]
    ⟨.fixed n, kind, .identity, .exchanged, " ".intercalate ["vector", kind.name, toString n, "*"]⟩

end Field

namespace Value

mutual

/-- The field that the grammar of a value declares. -/
def sampleField : Value → Field
  | list items =>
    match shared items with
    | some kind => .vector kind items.length
    | none => .group false [Word.ofList none, Word.ofTag items.length] (sampleFields items)
  | v => .scalar (v.kind?.getD .blob)

def sampleFields : List Value → List Field
  | [] => []
  | v :: rest => v.sampleField :: sampleFields rest

end

/-- The layout that the grammar of a list gives. -/
def sampleLayout (v : Value) : Layout := ⟨Field.layOut [] [v.sampleField], v.sampleGrammar⟩

variable {v : Value} {items : List Value} {kind : Kind}

theorem sample_of_kind (known : v.kind? = some kind) :
    v.sampleWords = [kind.name, "*"] ∧ v.sampleField = .scalar kind := by
  cases v with
  | list items => cases known
  | _ =>
    cases known
    exact ⟨rfl, rfl⟩

theorem sample_of_shared (known : shared items = some kind) :
    (list items).sampleWords = ["vector", kind.name, toString items.length, "*"] ∧
      (list items).sampleField = .vector kind items.length := by
  constructor
  · rw [sampleWords, known]
  · rw [sampleField, known]

theorem sample_of_own (none_shared : shared items = none) :
    (list items).sampleWords = "list" :: toString items.length :: sampleItems items ∧
      (list items).sampleField =
        .group false [Word.ofList none, Word.ofTag items.length] (sampleFields items) := by
  constructor
  · rw [sampleWords, none_shared]
  · rw [sampleField, none_shared]

/-- Induction over a value as its grammar is made: a primitive, a list of primitives of one kind, or
any other list. -/
@[elab_as_elim]
theorem bySample {P : Value → Prop} (primitive : ∀ v kind, v.kind? = some kind → P v)
    (vector : ∀ items kind, shared items = some kind → P (list items))
    (items : ∀ items, shared items = none → (∀ v ∈ items, P v) → P (list items)) (v : Value) :
    P v := by
  cases known : v.kind? with
  | some kind => exact primitive v kind known
  | none =>
    cases v with
    | list vs =>
      cases alike : shared vs with
      | some kind => exact vector vs kind alike
      | none => exact items vs alike fun v member => bySample primitive vector items v
    | _ => cases known
termination_by sizeOf v
decreasing_by
  have smaller := List.sizeOf_lt_of_mem member
  simp only [list.sizeOf_spec]
  omega

theorem fits_list : (list items).fits = true ↔
    items.length < 0x80000000 ∧ ∀ v ∈ items, v.fits = true := by
  have all : allFit items = true ↔ ∀ v ∈ items, v.fits = true := by
    induction items with
    | nil => simp [allFit]
    | cons v rest ih => simp [allFit, ih]
  rw [fits, Bool.and_eq_true, decide_eq_true_eq, all]

/-- The words that grammars of samples are made of. -/
inductive SampleWord : String → Prop
  | list : SampleWord "list"
  | vector : SampleWord "vector"
  | placeholder : SampleWord "*"
  | kind (kind : Kind) : SampleWord kind.name
  | length (n : Nat) : SampleWord (toString n)

theorem sampleWord_of_mem {word : String} (member : word ∈ v.sampleWords) : SampleWord word := by
  induction v using bySample with
  | primitive v kind known =>
    rw [(sample_of_kind known).1] at member
    rcases List.mem_pair.mp member with rfl | rfl
    · exact .kind kind
    · exact .placeholder
  | vector items kind known =>
    rw [(sample_of_shared known).1] at member
    simp only [List.mem_cons, List.not_mem_nil, or_false] at member
    rcases member with rfl | rfl | rfl | rfl
    · exact .vector
    · exact .kind kind
    · exact .length items.length
    · exact .placeholder
  | items items none_shared ih =>
    rw [(sample_of_own none_shared).1] at member
    simp only [List.mem_cons] at member
    rcases member with rfl | rfl | behind
    · exact .list
    · exact .length items.length
    · clear none_shared
      induction items with
      | nil => cases behind
      | cons v rest ih' =>
        rcases List.mem_append.mp behind with inside | behind
        · exact ih v List.mem_cons_self inside
        · exact ih' (fun v member => ih v (List.mem_cons_of_mem _ member)) behind

theorem sampleWords_ne_nil (v : Value) : v.sampleWords ≠ [] := by
  induction v using bySample with
  | primitive v kind known => simp [(sample_of_kind known).1]
  | vector items kind known => simp [(sample_of_shared known).1]
  | items items none_shared => simp [(sample_of_own none_shared).1]

end Value

namespace Decimal

theorem toList_toString (n : Nat) : (toString n).toList = Nat.toDigits 10 n := by
  rw [Nat.toString_eq_repr, Nat.repr, String.toList_ofList]

theorem natOfDigits_toString (n : Nat) : natOfDigits (toString n).toList = n := by
  rw [natOfDigits, toList_toString]
  exact Nat.ofDigitChars_toDigits (by decide) (by decide)

theorem isDigit_of_toString {n : Nat} {c : Char} (member : c ∈ (toString n).toList) :
    c.isDigit = true := by
  rw [toList_toString] at member
  exact Nat.isDigit_of_mem_toDigits (by decide) (by decide) member

theorem toString_ne_nil (n : Nat) : (toString n).toList ≠ [] := by
  rw [toList_toString]
  exact Nat.toDigits_ne_nil

end Decimal

namespace Layout

open Value (SampleWord sampleItems sampleFields bySample)

namespace Token

/-- Words as tokens with blanks between them. -/
def spaced (words : List String) : List Token := words.map fun word => ⟨" ", word, 0⟩

theorem spell_spaced (words : List String) : spell (spaced words) = " ".intercalate words := by
  induction words with
  | nil => rfl
  | cons word words ih =>
    cases words with
    | nil => rfl
    | cons next words =>
      rw [String.intercalate_cons_cons, ← ih]
      apply String.toList_inj.mp
      simp only [spaced, List.map_cons, spell_toList, String.toList_append, List.flatMap_cons,
        List.append_assoc]

theorem lexeme_of_length {t : Token} {n : Nat} (text : t.text = toString n) :
    t.lexeme = .length := by
  apply lexeme_of_digits
  · rw [text]
    exact Decimal.toString_ne_nil n
  · rw [text]
    exact fun c => Decimal.isDigit_of_toString

/-- What a token is depends on its text alone. -/
theorem lexeme_of_text {t : Token} {word : String} {lexeme : Lexeme} (text : t.text = word)
    (known : (⟨" ", word, 0⟩ : Token).lexeme = lexeme) : t.lexeme = lexeme :=
  (Respelled.lexeme_eq text).trans known

theorem lexeme_name (kind : Kind) : (⟨" ", kind.name, 0⟩ : Token).lexeme = .keyword := by
  cases kind <;> rfl

/-- A word of a sample is no separator, nor has it any in it. -/
theorem solid_of_sample {word : String} (h : SampleWord word) :
    Solid ⟨" ", word, 0⟩ ∧ (⟨" ", word, 0⟩ : Token).lexeme ≠ .separator := by
  have blank : " ".toList.all isSeparator = true := by decide
  suffices h : word.toList ≠ [] ∧ word.toList.any isSeparator = false ∧
      (⟨" ", word, 0⟩ : Token).lexeme ≠ .separator by
    obtain ⟨some_text, plain, no_separator⟩ := h
    refine ⟨⟨some_text, ?_, List.all_eq_true.mp blank⟩, no_separator⟩
    intro c member
    simpa using List.any_eq_false.mp plain c member
  cases h with
  | list => exact ⟨by decide, by decide, by decide⟩
  | vector => exact ⟨by decide, by decide, by decide⟩
  | placeholder => exact ⟨by decide, by decide, by decide⟩
  | kind kind => cases kind <;> exact ⟨by decide, by decide, by decide⟩
  | length n =>
    refine ⟨Decimal.toString_ne_nil n, List.any_eq_false.mpr ?_, ?_⟩
    · intro c member
      have digit := Decimal.isDigit_of_toString member
      simp only [isSeparator, List.mem_cons, List.not_mem_nil, or_false, decide_eq_true_eq]
      rintro (rfl | rfl | rfl | rfl | rfl) <;> cases digit
    · rw [lexeme_of_length rfl]
      decide

/-- The words of a sample are scanned as they are. -/
theorem scan_sample (v : Value) :
    Respelled (spaced v.sampleWords) (scan v.sampleGrammar) ∧
      sections (scan v.sampleGrammar) = [scan v.sampleGrammar] := by
  have each : ∀ t ∈ spaced v.sampleWords, t.Solid ∧ t.lexeme ≠ .separator := by
    intro t member
    obtain ⟨word, word_member, rfl⟩ := List.mem_map.mp member
    exact solid_of_sample (Value.sampleWord_of_mem word_member)
  have apart : ∀ t ∈ (spaced v.sampleWords).tail, t.before.toList ≠ [] := by
    intro t member
    obtain ⟨word, -, rfl⟩ := List.mem_map.mp (List.mem_of_mem_tail member)
    have blank : " ".toList ≠ [] := by decide
    exact blank
  have spelled := scan_spell (Spaced.mk (fun t member => (each t member).1) apart)
  rw [spell_spaced] at spelled
  refine ⟨spelled, sections_single fun t' found => ?_⟩
  have text : t'.text ∈ (spaced v.sampleWords).map Token.text :=
    spelled.1 ▸ List.mem_map_of_mem found
  obtain ⟨t, member, same⟩ := List.mem_map.mp text
  rw [← Respelled.lexeme_eq same]
  exact (each t member).2

end Token

namespace Head

open Token (Respelled spaced spell_spaced)

variable {scope : Scope} {tokens rest : List Token} {t : Token} {kind : Kind} {n : Nat}

/-- The words of a head are spelled as its origin. -/
theorem spell_taken (tokens rest : List Token) :
    Token.spell ((tokens ++ rest).take ((tokens ++ rest).length - rest.length)) =
      Token.spell tokens := by
  rw [List.length_append, Nat.add_sub_cancel, List.take_left]

theorem length_toString (bound : n < 0x80000000) : Grammar.Length (toString n) n := by
  have numeral := Token.numeral_of_digits (Decimal.toString_ne_nil n)
    (List.all_eq_true.mpr fun _ => Decimal.isDigit_of_toString)
  rw [Decimal.natOfDigits_toString] at numeral
  exact ⟨numeral, bound⟩

/-- A head without directives, outside of what is hidden, is read by its keyword. -/
theorem read_undirected {head : Head} (shown : scope.isHidden = false) (keyword : t.lexeme = .keyword)
    (no_skip : t.text ≠ "skip") (no_compute : t.text ≠ "compute")
    (body : (readBody scope (t :: tokens) .exchanged t).run tokens = (.ok head, rest)) :
    (Head.read scope).run (t :: tokens) = (.ok head, rest) := by
  have plain : t.lexeme ≠ .save ∧ t.lexeme ≠ .load := by
    rw [keyword]
    decide
  have skipped : (skipDirective scope t).run tokens = (.ok (scope.isHidden, t), tokens) :=
    skipDirective_iff.mpr (.inr ⟨no_skip, rfl, rfl, rfl⟩)
  have used : (useDirective scope scope.isHidden t).run tokens = (.ok (.exchanged, t), tokens) :=
    (useDirective_plain plain.1 plain.2).mpr ⟨by simp [shown], rfl, rfl⟩
  exact read_ok_iff.mpr
    ⟨t, tokens, rfl, .inr ⟨no_compute, _, t, _, _, t, _, skipped, used, keyword, body⟩⟩

/-- A word that is no type names no kind. -/
theorem name_ne (kind : Kind) {word : String} (other : Kind.ofKeyword? word = none) :
    kind.name ≠ word := by
  rintro rfl
  rw [Kind.ofKeyword?_name] at other
  cases other

/-- The type that a kind names, as it is. -/
theorem elementType_name (scope : Scope) (inVector : Bool) (named : t.text = kind.name) :
    elementType scope inVector t = .ok ⟨kind, false, false, none⟩ := by
  have signed : Kind.unsignedKeyword kind.name = false := by cases kind <;> rfl
  have typed : Grammar.Typed (stands scope inVector) (kind.name ++ "") _ :=
    .keyword (Kind.ofKeyword?_name kind) .untold trivial
  rw [String.append_empty, signed, ← named] at typed
  exact elementType_of_typed typed

section
variable (shown : scope.isHidden = false)
include shown

theorem read_scalar (spelled : Respelled (spaced [kind.name, "*"]) tokens) (rest : List Token) :
    (Head.read scope).run (tokens ++ rest) = (.ok (.whole (.scalar kind)), rest) := by
  have origin := spelled.spell_eq
  obtain ⟨t, _, rfl, named, spelled⟩ := spelled.cons
  obtain ⟨mark, _, rfl, marked, spelled⟩ := spelled.cons
  obtain rfl := spelled.nil
  have named : t.text = kind.name := named.symm
  have apart {word : String} (other : Kind.ofKeyword? word = none) : t.text ≠ word := by
    rw [named]
    exact name_ne kind other
  rw [List.cons_append]
  apply read_undirected shown (Token.lexeme_of_text named (Token.lexeme_name kind))
    (apart (by rfl)) (apart (by rfl))
  unfold readBody
  split
  · rename_i list
    exact absurd list (apart (by rfl))
  · rename_i vector
    exact absurd vector (apart (by rfl))
  · rename_i items
    exact absurd items (apart (by rfl))
  · refine readScalar_iff.mpr ⟨mark, _, .identity, marked.symm, rfl,
      elementType_name scope false named, rfl, nofun, ?_⟩
    rw [← List.cons_append, spell_taken, ← origin, spell_spaced]
    rfl

theorem read_vector (bound : n < 0x80000000)
    (spelled : Respelled (spaced ["vector", kind.name, toString n, "*"]) tokens)
    (rest : List Token) :
    (Head.read scope).run (tokens ++ rest) = (.ok (.whole (.vector kind n)), rest) := by
  have origin := spelled.spell_eq
  obtain ⟨t, _, rfl, vector, spelled⟩ := spelled.cons
  obtain ⟨type, _, rfl, named, spelled⟩ := spelled.cons
  obtain ⟨length, _, rfl, told, spelled⟩ := spelled.cons
  obtain ⟨mark, _, rfl, marked, spelled⟩ := spelled.cons
  obtain rfl := spelled.nil
  have vector : t.text = "vector" := vector.symm
  have told : Grammar.Length length.text n := told ▸ length_toString bound
  rw [List.cons_append]
  apply read_undirected shown (Token.lexeme_of_text vector (by rfl)) (by simp [vector])
    (by simp [vector])
  rw [readBody, vector]
  refine readVector_iff.mpr ⟨type, length, _, .identity, .fixed n,
    elementType_name scope true named.symm, rfl, rfl, .inr ⟨n, mark, told, rfl, marked.symm, rfl⟩, ?_⟩
  rw [← List.cons_append, spell_taken, ← origin, spell_spaced]
  rfl

theorem read_list (bound : n < 0x80000000)
    (spelled : Respelled (spaced ["list", toString n]) tokens) (rest : List Token) :
    (Head.read scope).run (tokens ++ rest) =
      (.ok (.opening false [Word.ofList none, Word.ofTag n] none n), rest) := by
  obtain ⟨t, _, rfl, list, spelled⟩ := spelled.cons
  obtain ⟨length, _, rfl, told, spelled⟩ := spelled.cons
  obtain rfl := spelled.nil
  have list : t.text = "list" := list.symm
  have told : Grammar.Length length.text n := told ▸ length_toString bound
  rw [List.cons_append]
  apply read_undirected shown (Token.lexeme_of_text list (by rfl)) (by simp [list]) (by simp [list])
  rw [readBody, list]
  exact readList_iff.mpr ⟨length, n, told, rfl, rfl, rfl, rfl⟩

end

end Head

namespace Parse

open Token (Respelled spaced)

variable {scope : Scope} {tokens : List Token} {fuel : Nat}

/-- The words of a value are read as its field, wherever it is shown. -/
def ReadsSample (v : Value) : Prop :=
  ∀ (scope : Scope) (tokens behind : List Token) (findings : List Finding) (fuel : Nat),
    scope.isHidden = false → Respelled (spaced v.sampleWords) tokens → tokens.length ≤ fuel →
    readField fuel scope ⟨tokens ++ behind, findings⟩ = (some v.sampleField, ⟨behind, findings⟩)

theorem isVisible_sample (v : Value) : v.sampleField.isVisible = true := by
  induction v using bySample with
  | primitive v kind known => rw [(Value.sample_of_kind known).2]; rfl
  | vector items kind known => rw [(Value.sample_of_shared known).2]; rfl
  | items items none_shared => rw [(Value.sample_of_own none_shared).2]; rfl

/-- The fields of a list, by the values that they are made of. -/
theorem listFields_sample {items : List Value} (each : ∀ v ∈ items, ReadsSample v)
    (shown : scope.isHidden = false) (spelled : Respelled (spaced (sampleItems items)) tokens)
    (enough : tokens.length < fuel) (found : Nat) (behind : List Token)
    (findings : List Finding) :
    listFields fuel scope (found + items.length) found ⟨tokens ++ behind, findings⟩ =
      (sampleFields items, ⟨behind, findings⟩) := by
  induction items generalizing tokens fuel found with
  | nil =>
    obtain rfl := spelled.nil
    obtain ⟨fuel, rfl⟩ := Nat.exists_eq_succ_of_ne_zero (Nat.ne_of_gt enough)
    rw [listFields_succ, if_pos (by simp)]
    rfl
  | cons v rest ih =>
    obtain ⟨fuel, rfl⟩ : ∃ m, fuel = m + 1 := Nat.exists_eq_succ_of_ne_zero (by omega)
    rw [sampleItems, spaced, List.map_append] at spelled
    obtain ⟨first, others, rfl, length, first_spelled, others_spelled⟩ := spelled.split
    have some_words : 0 < first.length := by
      rw [← length, List.length_map]
      exact List.length_pos_iff.mpr v.sampleWords_ne_nil
    rw [List.length_append] at enough
    have some_left : first ++ others ++ behind ≠ [] := by
      intro ended
      have none_left := congrArg List.length ended
      simp only [List.length_append, List.length_nil] at none_left
      omega
    have field := each v List.mem_cons_self scope first (others ++ behind) findings fuel shown
      first_spelled (by omega)
    rw [← List.append_assoc] at field
    have counts : countsAsVisible (some v.sampleField) = true := isVisible_sample v
    have further : listFields fuel scope (found + 1 + rest.length) (found + 1)
        ⟨others ++ behind, findings⟩ = (sampleFields rest, ⟨behind, findings⟩) :=
      ih (fun v member => each v (List.mem_cons_of_mem _ member)) others_spelled (by omega) _
    have total : found + 1 + rest.length = found + (v :: rest).length := by
      simp only [List.length_cons]
      omega
    rw [total] at further
    rw [listFields_succ, if_neg (by simp), if_neg some_left, field]
    simp only [counts, or_true, if_true, further]
    rfl

/-- Every value that fits is read as its field, by induction on how its grammar is made. -/
theorem readField_sample {v : Value} (fits : v.fits = true) : ReadsSample v := by
  induction v using bySample with
  | primitive v kind known =>
    intro scope tokens behind findings fuel shown spelled _
    rw [(Value.sample_of_kind known).1] at spelled
    rw [(Value.sample_of_kind known).2, readField_run, Head.read_scalar shown spelled behind]
  | vector items kind known =>
    intro scope tokens behind findings fuel shown spelled _
    rw [(Value.sample_of_shared known).1] at spelled
    rw [(Value.sample_of_shared known).2, readField_run,
      Head.read_vector shown (Value.fits_list.mp fits).1 spelled behind]
  | items items none_shared ih =>
    intro scope tokens behind findings fuel shown spelled enough
    obtain ⟨bound, each_fits⟩ := Value.fits_list.mp fits
    rw [(Value.sample_of_own none_shared).1] at spelled
    change Respelled (spaced ["list", toString items.length] ++ spaced (sampleItems items))
      tokens at spelled
    obtain ⟨head, inner, rfl, length, head_spelled, inner_spelled⟩ := spelled.split
    have two : head.length = 2 := length.symm
    rw [List.length_append] at enough
    have list : listFields fuel ⟨scope.stop, none, false⟩ (0 + items.length) 0
        ⟨inner ++ behind, findings⟩ = (sampleFields items, ⟨behind, findings⟩) :=
      listFields_sample (fun v member => ih v member (each_fits v member)) rfl inner_spelled
        (by omega) 0 behind findings
    rw [Nat.zero_add] at list
    rw [(Value.sample_of_own none_shared).2, readField_run, List.append_assoc,
      Head.read_list shown bound head_spelled (inner ++ behind)]
    dsimp only
    rw [list]

end Parse

variable {v : Value} {tokens : List Token}

/-- A section that begins with a list or a vector is no list of its own. -/
theorem isWrapped_sample (list : v.isList = true)
    (spelled : Token.Respelled (Token.spaced v.sampleWords) tokens) :
    isWrapped tokens = false := by
  have begins {t : Token} {rest : List Token} {word : String} (text : t.text = word)
      (keyword : t.lexeme = .keyword) (container : word = "list" ∨ word = "vector") :
      isWrapped (t :: rest) = false := by
    rcases container with rfl | rfl <;> simp [isWrapped, Token.isWord, text, keyword]
  induction v using bySample with
  | primitive v kind known =>
    cases v with
    | list items => cases known
    | _ => cases list
  | vector items kind known =>
    rw [(Value.sample_of_shared known).1] at spelled
    obtain ⟨t, rest, rfl, text, -⟩ := spelled.cons
    exact begins text.symm (Token.lexeme_of_text text.symm (by rfl)) (.inr rfl)
  | items items none_shared =>
    rw [(Value.sample_of_own none_shared).1] at spelled
    obtain ⟨t, rest, rfl, text, -⟩ := spelled.cons
    exact begins text.symm (Token.lexeme_of_text text.symm (by rfl)) (.inl rfl)

theorem readFields_sample (list : v.isList = true) (fits : v.fits = true)
    (spelled : Token.Respelled (Token.spaced v.sampleWords) tokens) :
    readFields tokens = ([v.sampleField], []) := by
  have unwrapped := isWrapped_sample list spelled
  have field := Parse.readField_sample fits ⟨Token.stopOf tokens, none, false⟩ tokens [] []
    tokens.length rfl spelled (Nat.le_refl _)
  have counts : Parse.countsAsVisible (some v.sampleField) = true := Parse.isVisible_sample v
  rw [List.append_nil] at field
  have run : (Parse.sectionFields (isWrapped tokens) (tokens.length + 1)
      ⟨Token.stopOf tokens, none, false⟩ 0).run ⟨tokens, []⟩ = ([v.sampleField], ⟨[], []⟩) := by
    rw [StateT.run, unwrapped, Parse.sectionFields_succ]
    cases tokens with
    | nil =>
      have none_there : v.sampleWords = [] :=
        List.map_eq_nil_iff.mp (List.map_eq_nil_iff.mp spelled.1)
      exact absurd none_there v.sampleWords_ne_nil
    | cons t rest =>
      dsimp only
      rw [field]
      simp only [counts]
      rfl
  rw [readFields, run]

/-- The grammar of a list that fits can be compiled, and gives the one layout of its field. -/
theorem compileSections_sample (list : v.isList = true) (fits : v.fits = true) :
    compileSections v.sampleGrammar = .ok [v.sampleLayout] := by
  obtain ⟨spelled, divided⟩ := Token.scan_sample v
  have read := readFields_sample list fits spelled
  have made : ofFields (Token.scan v.sampleGrammar) [v.sampleField] = v.sampleLayout := by
    rw [ofFields, wrapping, isWrapped_sample list spelled, ← spelled.spell_eq,
      Token.spell_spaced]
    rfl
  rw [compileSections_single divided read, made]

/-- Two texts share a kind, a vector and a float do not. -/
example : (Value.list [.list [.string [104], .string []], .float64 0]).sampleGrammar =
    "list 2 vector string 2 * float64 *" := by rfl

end Layout

end TagWire
