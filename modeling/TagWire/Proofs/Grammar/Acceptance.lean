import TagWire.Proofs.Grammar.Fields
import TagWire.Proofs.Layout.Parsing

/-!
# The grammars that are accepted

A text can be compiled just where each of its sections is one of the grammar of layouts.

- `readFields_spells`: the fields of a section without faults are spelled by its words.
- `readFields_silent_iff`: the sections without faults.
- `accepts_exactly_sections`: the texts that can be compiled.
-/

namespace TagWire

namespace Grammar

/-- A field has some words. -/
theorem Form.ne_nil {item : Option (Kind × Bool)} {isHidden : Bool} {f : Bool × List String}
    {rule : Bool → Use → Shape → Prop} (form : Form rule item isHidden f) : f.2 ≠ [] := by
  cases form with
  | compute known => exact List.cons_ne_nil _ _
  | field directed shaped =>
    obtain ⟨word, rest, rfl, -⟩ := shaped.first
    simp

end Grammar

namespace Layout

open Grammar (Body Form HeadForm Permitted Shape Signs)

namespace Parse

theorem readField_compute {item : Option (Kind × Bool)} {isHidden : Bool} {name : String}
    {derivation : Derivation} (known : Derivation.ofName? name = some derivation) :
    ReadsForm item isHidden (false, ["compute", name]) := by
  intro stop tokens behind findings fuel spelled _
  have form : HeadForm item isHidden (tokens.map Token.text) (.derivation derivation) := by
    rw [spelled]
    exact .compute known
  obtain ⟨head, read, outlines⟩ :
      ∃ head, (Head.read ⟨stop, item, isHidden⟩).run (tokens ++ behind) = (.ok head, behind) ∧
        head.Outlines (.derivation derivation) := Head.read_complete form behind
  cases head with
  | opening => exact outlines.elim
  | whole field =>
    cases field with
    | data | group => exact outlines.elim
    | derive d origin => exact ⟨.derive d origin, by rw [readField_run, read], rfl⟩

/-- The words of a field are read if those of the fields inside it are. -/
theorem readField_field {item : Option (Kind × Bool)} {isHidden : Bool} {signs body : List String}
    {use : Use} {shape : Shape} {inside : List (Bool × List String)}
    (directed : Signs isHidden signs use) (shaped : Body item body shape)
    (ruled : Permitted isHidden use shape)
    (each : ∀ f ∈ inside, f.2 ≠ [] ∧ ReadsForm shape.inner use.isHidden f)
    (filled : shape.Filled use.isHidden (inside.map Prod.fst)) :
    ReadsForm item isHidden (!use.isHidden, signs ++ body ++ inside.flatMap Prod.snd) := by
  intro stop tokens behind findings fuel spelled enough
  obtain ⟨taken, further, rfl, words, further_words⟩ := List.map_eq_append_iff.mp spelled
  have form : HeadForm item isHidden (taken.map Token.text) (.field use shape) := by
    rw [words]
    exact .field directed shaped ruled
  obtain ⟨head, read, outlines⟩ :
      ∃ head, (Head.read ⟨stop, item, isHidden⟩).run (taken ++ (further ++ behind)) =
        (.ok head, further ++ behind) ∧ head.Outlines (.field use shape) :=
    Head.read_complete form (further ++ behind)
  have taken_some : 0 < taken.length := by
    apply List.length_pos_iff.mpr
    rintro rfl
    obtain ⟨word, rest, split, -⟩ := shaped.first
    simp [split] at words
  rw [List.append_assoc]
  cases head with
  | whole field =>
    cases field with
    | derive | group => exact outlines.elim
    | data tags payload =>
      obtain ⟨used, flat⟩ := outlines
      have nothing : inside = [] := by
        cases shape with
        | scalar | vector => exact List.map_eq_nil_iff.mp filled
        | list inner n => exact (flat inner n rfl).elim
      subst nothing
      obtain rfl := List.map_eq_nil_iff.mp further_words
      exact ⟨.data tags payload, by rw [readField_run, read]; rfl,
        by rw [Field.isVisible, used]⟩
  | opening hides tags inner n =>
    obtain ⟨rfl, rfl⟩ := outlines
    rw [List.length_append] at enough
    obtain ⟨fields, list⟩ := @listFields_form ⟨stop, inner, use.isHidden⟩ inside further fuel n 0
      each filled further_words (by omega) behind findings
    refine ⟨.group use.isHidden tags fields, ?_, rfl⟩
    rw [readField_run, read]
    dsimp only
    rw [list]

/-- The words of a field are read as one, by induction on what is inside of it. -/
theorem readField_form {item : Option (Kind × Bool)} {isHidden : Bool} {f : Bool × List String}
    (form : Form Permitted item isHidden f) : ReadsForm item isHidden f := by
  induction form with
  | compute known => exact readField_compute known
  | field directed shaped ruled each filled ih =>
    exact readField_field directed shaped ruled
      (fun f member => ⟨(each f member).ne_nil, ih f member⟩) filled

end Parse

/-- What is read in a section without faults is spelled by its words. -/
theorem readFields_spells {tokens : List Token} (silent : (readFields tokens).2 = []) :
    ∃ pieces, Parse.SpellsAll ⟨Token.stopOf tokens, none, false⟩ (readFields tokens).1 tokens
      pieces :=
  Parse.sectionFields_spells (Nat.lt_succ_self tokens.length) silent

/-- A section is a list of its own just where nothing in it is a container. -/
theorem isWrapped_iff {tokens : List Token} :
    isWrapped tokens = false ↔ ∃ word ∈ tokens.map Token.text,
      word = "list" ∨ word = "vector" ∨ word = "item_vector" := by
  have container (t : Token) :
      (t.isWord "list" = true ∨ t.isWord "vector" = true ∨ t.isWord "item_vector" = true) ↔
        (t.text = "list" ∨ t.text = "vector" ∨ t.text = "item_vector") := by
    rw [Token.isWord_iff (by decide), Token.isWord_iff (by decide), Token.isWord_iff (by decide)]
  simp only [isWrapped, Bool.not_eq_false', List.any_eq_true, Bool.decide_or, Bool.or_eq_true,
    decide_eq_true_eq, container, List.mem_map, exists_exists_and_eq_and]

/-- A section has no faults just where its words are a section of the grammar. -/
theorem readFields_silent_iff {tokens : List Token} :
    (readFields tokens).2 = [] ↔ Grammar.Section Permitted (tokens.map Token.text) := by
  constructor
  · intro silent
    obtain ⟨pieces, fields, words, each⟩ := readFields_spells silent
    have single := (readFields_reads silent).2
    refine ⟨pieces.map fun f => (f.1.isVisible, f.2), ?_, ?_, ?_⟩
    · intro _ member
      obtain ⟨f, inside, rfl⟩ := List.mem_map.mp member
      exact (each f inside).form
    · rw [words, List.flatMap_map]
    · intro container
      have single := single (isWrapped_iff.mpr container)
      rw [fields, List.countP_map] at single
      rw [List.map_map, List.count_eq_countP, List.countP_map]
      simpa [Function.comp_def] using single
  · rintro ⟨inside, each, words, single⟩
    have reads : ∀ f ∈ inside, f.2 ≠ [] ∧ Parse.ReadsForm none false f := by
      intro f member
      exact ⟨(each f member).ne_nil, Parse.readField_form (each f member)⟩
    obtain ⟨fields, read⟩ := @Parse.sectionFields_form ⟨Token.stopOf tokens, none, false⟩ inside
      tokens (isWrapped tokens) (tokens.length + 1) 0 reads
      (fun unwrapped => single (isWrapped_iff.mp unwrapped)) words (Nat.lt_succ_self _)
    have run := congrArg (fun p => p.2.findings) read
    exact run

/-- A text can be compiled just where each of its sections is one of the grammar, in which what is
loaded is an integer in its own width, and what is saved is no list without a kind for its items.
Then there is a layout for each section. -/
theorem accepts_exactly_sections (grammar : String) :
    ((∃ layouts, compileSections grammar = .ok layouts) ↔
      ∀ words ∈ Grammar.sections grammar, Grammar.Section Permitted words) ∧
    ∀ layouts, compileSections grammar = .ok layouts →
      layouts.length = (Grammar.sections grammar).length := by
  rw [← Token.text_sections_scan]
  constructor
  · rw [List.forall_mem_map]
    constructor
    · rintro ⟨layouts, compiled⟩ tokens member
      exact readFields_silent_iff.mp ((compileSections_ok.mp compiled).1 tokens member)
    · intro sections
      exact ⟨_, compileSections_ok.mpr
        ⟨fun tokens member => readFields_silent_iff.mpr (sections tokens member), rfl⟩⟩
  · intro layouts compiled
    obtain ⟨-, rfl⟩ := compileSections_ok.mp compiled
    rw [List.length_map, List.length_map]

/-- A text whose sections are of the grammar by a rule of its own, and that is refused. -/
def Overreaches (rule : Bool → Use → Grammar.Shape → Prop) (grammar : String) : Prop :=
  (∀ words ∈ Grammar.sections grammar, Grammar.Section rule words) ∧
    ∀ layouts, compileSections grammar ≠ .ok layouts

theorem overreaches_of {rule : Bool → Use → Grammar.Shape → Prop} {grammar : String}
    {tokens : List Token} {f : Bool × List String}
    (divided : Token.sections (Token.scan grammar) = [tokens])
    (spelled : tokens.map Token.text = f.2) (form : Form rule none false f)
    (found : (readFields tokens).2.isEmpty = false) : Overreaches rule grammar := by
  constructor
  · rw [← Token.text_sections_scan, divided]
    rintro words (_ | ⟨_, ⟨⟩⟩)
    refine ⟨[f], by simpa using form, by simpa using spelled, fun _ => ?_⟩
    exact List.count_le_length
  · intro layouts compiled
    have silent := (compileSections_ok.mp compiled).1 tokens (divided ▸ List.mem_cons_self)
    rw [silent] at found
    cases found

/-- If only loads were held to anything, to scalars, there would be further texts with the sections
of the grammar: a list that is saved, a load of what is no integer, one inside of what is hidden, and
one of a literal without an integer. They are refused. -/
theorem wider_grammar_refused :
    Overreaches Grammar.LoadsScalars ">x list 0" ∧
      Overreaches Grammar.LoadsScalars "<x float64 *" ∧
      Overreaches Grammar.LoadsScalars "skip list 1 <x int32 *" ∧
      Overreaches Grammar.LoadsScalars "<= int32 *" := by
  have scalar {item : Option (Kind × Bool)} {word : String} {kind : Kind}
      (known : Kind.ofKeyword? word = some kind) :
      Grammar.Body item [word ++ "", "*"] (.scalar ⟨kind, Kind.unsignedKeyword word, false, none⟩) :=
    .scalar (.keyword known .untold trivial)
  have load {item : Option (Kind × Bool)} {isHidden : Bool} {name word : String} {kind : Kind}
      (named : name ≠ "") (known : Kind.ofKeyword? word = some kind) :
      Form Grammar.LoadsScalars item isHidden (true, ["<" ++ name, word ++ "", "*"]) :=
    @Form.field _ item isHidden _ _ (.loaded name none) _ [] (.load named) (scalar known)
      (fun _ => ⟨_, rfl⟩) (by simp) rfl
  have none_told : Grammar.Length "0" 0 := ⟨⟨by decide, List.all_eq_true.mp rfl, rfl⟩, by decide⟩
  have one_told : Grammar.Length "1" 1 := ⟨⟨by decide, List.all_eq_true.mp rfl, rfl⟩, by decide⟩
  have saved : Form Grammar.LoadsScalars none false (false, [">x", "list", "0"]) :=
    @Form.field _ none false _ _ _ _ [] (@Grammar.Signs.save false "x" (by decide))
      (.list none_told) (fun loaded => by cases loaded) (by simp) rfl
  have unfit : Form Grammar.LoadsScalars none false (true, ["<x", "float64", "*"]) :=
    @load none false "x" "float64" .float64 (by decide) rfl
  have hidden : Form Grammar.LoadsScalars none false
      (false, ["skip", "list", "1", "<x", "int32", "*"]) :=
    @Form.field _ none false _ _ _ _ [(true, ["<x", "int32", "*"])] .skip (.list one_told)
      (fun loaded => by cases loaded)
      (by
        rintro f (_ | ⟨_, ⟨⟩⟩)
        exact @load none true "x" "int32" .int32 (by decide) rfl) rfl
  have missing : Form Grammar.LoadsScalars none false (true, ["<=", "int32", "*"]) :=
    @load none false "=" "int32" .int32 (by decide) rfl
  refine ⟨?_, ?_, ?_, ?_⟩
  · exact @overreaches_of _ ">x list 0" [⟨"", ">x", 0⟩, ⟨" ", "list", 3⟩, ⟨" ", "0", 8⟩] _ rfl rfl
      saved rfl
  · exact @overreaches_of _ "<x float64 *" [⟨"", "<x", 0⟩, ⟨" ", "float64", 3⟩, ⟨" ", "*", 11⟩] _ rfl
      rfl unfit rfl
  · exact @overreaches_of _ "skip list 1 <x int32 *" [⟨"", "skip", 0⟩, ⟨" ", "list", 5⟩,
      ⟨" ", "1", 10⟩, ⟨" ", "<x", 12⟩, ⟨" ", "int32", 15⟩, ⟨" ", "*", 21⟩] _ rfl rfl hidden rfl
  · exact @overreaches_of _ "<= int32 *" [⟨"", "<=", 0⟩, ⟨" ", "int32", 3⟩, ⟨" ", "*", 9⟩] _ rfl rfl
      missing rfl

end Layout

end TagWire
