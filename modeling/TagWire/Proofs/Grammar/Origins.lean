import TagWire.Proofs.Grammar.Heads
import TagWire.Proofs.Layout.Compiled
import TagWire.Proofs.Layout.Respelling

/-!
# Origins of data

Each piece of data of a layout keeps the words that declare it, as they stand in its section. They
tell what becomes of the data, its type, and whether it is one value or a vector.

- `Grammar.Declares`: the words that declare a piece of data.
- `Head.read_declares`: data that is read keeps its words.
- `compileSections_declares`: the data of a layout and its words.
-/

namespace TagWire

namespace Grammar

open Layout (ElementType conversion?)

/-- How much data a field declares: one value, or a vector with or without a length. -/
inductive Extent where
  | scalar
  | vector (length : Option Nat)
  deriving DecidableEq, Repr

/-- The number of elements that a field declares. -/
def Extent.count : Extent → Count
  | scalar => .fixed 1
  | vector none => .fromWire
  | vector (some n) => .fixed n

/-- The elements of the data are those of a type. -/
structure Elements (p : Payload) (element : ElementType) : Prop where
  kind : p.kind = element.kind
  conversion : conversion? element.kind (!element.isUnsigned) element.wire = some p.conversion

/-- The words that declare a piece of data, and how much of it. -/
inductive Declares (p : Payload) : List String → Extent → Prop
  | scalar {isHidden signs item type element} (directed : Signs isHidden signs p.use)
      (typed : Typed item type element) (elements : Elements p element)
      (count : p.count = .fixed 1) :
      Declares p (signs ++ [type, "*"]) .scalar
  | openVector {isHidden signs type element} (directed : Signs isHidden signs p.use)
      (typed : Typed none type element) (elements : Elements p element)
      (count : p.count = .fromWire) :
      Declares p (signs ++ ["vector", type, "*"]) (.vector none)
  | vector {isHidden signs type element length n} (directed : Signs isHidden signs p.use)
      (typed : Typed none type element) (told : Length length n) (elements : Elements p element)
      (count : p.count = .fixed n) :
      Declares p (signs ++ ["vector", type, length, "*"]) (.vector (some n))

theorem Declares.count_eq {p : Payload} {words : List String} {extent : Extent}
    (declares : Declares p words extent) : p.count = extent.count := by
  cases declares <;> assumption

end Grammar

namespace Layout

open Grammar (Declares Elements Extent Signs Typed)

/-- The words of spelled tokens. -/
theorem Token.words_spell {tokens : List Token} (spaced : Token.Spaced tokens) :
    Grammar.words (Token.spell tokens) = tokens.map Token.text := by
  rw [← Token.text_scan, (Token.scan_spell spaced).1]

namespace Head

variable {scope : Scope} {start tokens rest : List Token} {t : Token} {use : Use}
  {words : List Word} {p : Payload}

/-- Data that is read behind the directives of a field. -/
theorem readBody_declares
    (h : (readBody scope start use t).run tokens = (.ok (.whole (.data words p)), rest)) :
    p.origin = Token.spell (start.take (start.length - rest.length)) ∧
      ∃ taken, tokens = taken ++ rest ∧
        ∀ {isHidden signs}, Signs isHidden signs use →
          ∃ extent, Declares p (signs ++ t.text :: taken.map Token.text) extent := by
  unfold readBody at h
  split at h
  · obtain ⟨_, _, _, _, _, _, ⟨⟩⟩ := readList_iff.mp h
  · rename_i text
    obtain ⟨type, length, element, c, count, typed, converted, -, counted, ⟨⟩⟩ :=
      readVector_iff.mp h
    have typed : Typed none type.text element :=
      typed_of_elementType typed ((Grammar.reaches_iff _).mpr ⟨c, converted⟩)
    refine ⟨rfl, ?_⟩
    obtain ⟨mark, rfl, rfl⟩ | ⟨n, mark, told, rfl, marked, rfl⟩ := counted
    · refine ⟨[type, length], rfl, fun directed => ⟨.vector none, ?_⟩⟩
      rw [text, List.map_cons, List.map_cons, mark]
      exact .openVector directed typed ⟨rfl, converted⟩ rfl
    · refine ⟨[type, length, mark], rfl, fun directed => ⟨.vector (some n), ?_⟩⟩
      rw [text, List.map_cons, List.map_cons, List.map_cons, marked]
      exact .vector directed typed told ⟨rfl, converted⟩ rfl
  · obtain ⟨_, _, _, _, _, _, _, _, _, ⟨⟩⟩ := readItemVector_iff.mp h
  · obtain ⟨mark, element, c, text, rfl, typed, converted, -, ⟨⟩⟩ := readScalar_iff.mp h
    have typed : Typed scope.item t.text element :=
      typed_of_elementType typed ((Grammar.reaches_iff _).mpr ⟨c, converted⟩)
    refine ⟨rfl, [mark], rfl, fun directed => ⟨.scalar, ?_⟩⟩
    rw [List.map_cons, text]
    exact .scalar directed typed ⟨rfl, converted⟩ rfl

/-- Data that is read keeps the text of the words that declare it. -/
theorem read_declares (h : (Head.read scope).run tokens = (.ok (.whole (.data words p)), rest)) :
    ∃ taken extent, tokens = taken ++ rest ∧ p.origin = Token.spell taken ∧
      Declares p (taken.map Token.text) extent := by
  obtain ⟨first, behind, rfl, ⟨-, h⟩ | ⟨-, isHidden, t₁, mid, use, t, mid', skipped, used, -, h⟩⟩ :=
    read_ok_iff.mp h
  · obtain ⟨_, _, _, _, ⟨⟩⟩ := readDerivation_iff.mp h
  · obtain ⟨signs, split, directed, -⟩ := signs_sound skipped used
    obtain ⟨origin, taken, rfl, declares⟩ := readBody_declares h
    obtain ⟨extent, declares⟩ := declares directed
    have whole : first :: behind = (signs ++ t :: taken) ++ rest := by
      rw [split, List.append_assoc, List.cons_append]
    refine ⟨signs ++ t :: taken, extent, whole, ?_, ?_⟩
    · rw [origin, whole, List.length_append, Nat.add_sub_cancel, List.take_left]
    · rw [List.map_append]
      exact declares

end Head

/-- The data of a gap is declared by words that stand together among these tokens. -/
def Sourced (tokens : List Token) (g : Gap) : Prop :=
  ∀ p, g.payload? = some p → ∃ taken extent, taken <:+: tokens ∧ p.origin = Token.spell taken ∧
    Declares p (taken.map Token.text) extent

/-- So is the data of all gaps that fields make. -/
def AllSourced (tokens : List Token) (fields : List Field) : Prop :=
  ∀ f ∈ fields, ∀ waiting, ∀ g ∈ (f.gaps waiting).1, Sourced tokens g

namespace AllSourced

variable {tokens inside : List Token} {f : Field} {fields : List Field}

theorem none_read : AllSourced tokens [] := fun _ member => absurd member List.not_mem_nil

theorem of_infix (sourced : AllSourced inside fields) (part : inside <:+: tokens) :
    AllSourced tokens fields := by
  intro f member waiting g made p data
  obtain ⟨taken, extent, taken_part, rest⟩ := sourced f member waiting g made p data
  exact ⟨taken, extent, taken_part.trans part, rest⟩

theorem cons (first : ∀ waiting, ∀ g ∈ (f.gaps waiting).1, Sourced tokens g)
    (others : AllSourced inside fields) (part : inside <:+: tokens) :
    AllSourced tokens (f :: fields) :=
  List.forall_mem_cons.mpr ⟨first, others.of_infix part⟩

end AllSourced

namespace Parse

variable {scope : Scope} {tokens : List Token}

theorem readField_sourced {fuel : Nat} {behind : List Token} {f : Field}
    (inner : ∀ (scope : Scope) length tokens,
      (listFields fuel scope length 0 ⟨tokens, []⟩).2.findings = [] →
      AllSourced tokens (listFields fuel scope length 0 ⟨tokens, []⟩).1)
    (reading : FieldRead fuel scope tokens f behind) (waiting : List Word) :
    ∀ g ∈ (f.gaps waiting).1, Sourced tokens g := by
  cases reading with
  | whole head =>
    cases f with
    | derive =>
      rintro g (_ | ⟨_, ⟨⟩⟩) p ⟨⟩
    | data words p =>
      obtain ⟨taken, extent, rfl, origin, declares⟩ := Head.read_declares head
      have sourced (words : List Word) : Sourced (taken ++ behind) ⟨words, .data p⟩ := by
        rintro _ ⟨⟩
        exact ⟨taken, extent, (List.prefix_append taken behind).isInfix, origin, declares⟩
      rw [Field.gaps]
      split <;> exact List.forall_mem_singleton.mpr (sourced _)
    | group isHidden words fields =>
      rcases Head.read_ok head with ⟨_, _, ⟨⟩, _⟩ | ⟨_, matched, _⟩
      exact matched.elim
  | @group isHidden words item length inside fields _ head shorter list =>
    have sourced := inner { scope with item, isHidden } length inside (by rw [list])
    rw [list] at sourced
    exact Field.forall_allGaps
      (sourced.of_infix (shorter.trans (List.tail_suffix tokens)).isInfix) _

theorem listFields_sourced {fuel length found : Nat}
    (silent : (listFields fuel scope length found ⟨tokens, []⟩).2.findings = []) :
    AllSourced tokens (listFields fuel scope length found ⟨tokens, []⟩).1 := by
  induction fuel generalizing scope length found tokens with
  | zero => exact .none_read
  | succ fuel ih =>
    rcases listFields_cases silent with
      ⟨_, read⟩ | ⟨f, t, rest, behind, _, rfl, shorter, -, reading, read⟩
    · rw [read]
      exact .none_read
    · rw [read] at silent ⊢
      exact .cons (readField_sourced (fun scope length tokens silent => ih silent) reading)
        (ih silent) (shorter.trans (List.suffix_cons t rest)).isInfix

theorem sectionFields_sourced {wrapped : Bool} {fuel visible : Nat}
    (silent : (sectionFields wrapped fuel scope visible ⟨tokens, []⟩).2.findings = []) :
    AllSourced tokens (sectionFields wrapped fuel scope visible ⟨tokens, []⟩).1 := by
  induction fuel generalizing visible tokens with
  | zero => exact .none_read
  | succ fuel ih =>
    rcases sectionFields_cases silent with
      ⟨rfl, read⟩ | ⟨f, t, rest, behind, rfl, shorter, -, reading, -, read⟩
    · rw [read]
      exact .none_read
    · rw [read] at silent ⊢
      exact .cons
        (readField_sourced (fun scope length tokens silent => listFields_sourced silent) reading)
        (ih silent) (shorter.trans (List.suffix_cons t rest)).isInfix

end Parse

theorem readFields_sourced {tokens : List Token} (silent : (readFields tokens).2 = []) :
    AllSourced tokens (readFields tokens).1 :=
  @Parse.sectionFields_sourced ⟨Token.stopOf tokens, none, false⟩ tokens (isWrapped tokens)
    (tokens.length + 1) 0 silent

/-- The data of a layout keeps the words that declare it, which stand together in its section. -/
theorem compileSections_declares {grammar : String} {layouts : List Layout}
    (compiled : compileSections grammar = .ok layouts) {layout : Layout}
    (member : layout ∈ layouts) :
    ∃ words ∈ Grammar.sections grammar, ∀ g ∈ layout.gaps, ∀ p, g.payload? = some p →
      Grammar.words p.origin <:+: words ∧ ∃ extent, Declares p (Grammar.words p.origin) extent := by
  obtain ⟨silent, rfl⟩ := compileSections_ok.mp compiled
  obtain ⟨tokens, section_member, rfl⟩ := List.mem_map.mp member
  have in_sections : tokens.map Token.text ∈ Grammar.sections grammar := by
    rw [← Token.text_sections_scan]
    exact List.mem_map_of_mem section_member
  refine ⟨tokens.map Token.text, in_sections, fun g made p data => ?_⟩
  have sourced := readFields_sourced (silent tokens section_member)
  have bare (words : List Word) : Sourced tokens ⟨words, .nothing⟩ := fun p data => by cases data
  obtain ⟨taken, extent, inside, origin, declares⟩ :=
    Field.forall_layOut bare sourced (wrapping tokens (readFields tokens).1) g made p data
  have spaced : Token.Spaced taken := (Token.spaced_scan grammar).sublist
    (inside.sublist.trans (Token.sections_part section_member).1)
  rw [origin, Token.words_spell spaced]
  exact ⟨inside.map Token.text, extent, declares⟩

end Layout

end TagWire
