import Mathlib.Data.List.Forall2
import TagWire.Proofs.Grammar.Acceptance
import TagWire.Proofs.Layout.Compiled

/-!
# Directives in layouts

What a section asks to be saved, loaded and computed is asked by the gaps of its layout, in the same
order and under the same names. Only what is to be saved of an item vector is lost.

- `Grammar.directives`: the directives of words, each with the word behind it.
- `Gap.directive?`: what a gap saves, loads or computes.
- `compileSections_directives`: the directives of sections and their layouts.
-/

namespace TagWire

namespace Grammar

/-- What is done with data or properties under a name. -/
inductive Directive where
  | save (name : String)
  | load (name : String)
  | compute (name : String)
  deriving DecidableEq, Repr

def Directive.isSave : Directive → Bool
  | save _ => true
  | _ => false

/-- The directive that a word gives, with the word behind it at hand. -/
def Directive.ofWord? (word : String) (next : Option String) : Option Directive :=
  if word = "compute" then next.map compute
  else
    match word.toList with
    | '>' :: c :: rest => some (save (String.ofList (c :: rest)))
    | '<' :: c :: rest => some (load (String.ofList (c :: rest)))
    | _ => none

/-- The directives of words, each with the word behind it. -/
def directives : List String → List (Directive × Option String)
  | [] => []
  | word :: rest =>
    ((Directive.ofWord? word rest.head?).map (·, rest.head?)).toList ++ directives rest

/-- Whether a directive lasts in front of a word: an item vector is not saved. -/
def Directive.lasts (next : Option String) (d : Directive) : Bool :=
  !(d.isSave && next = some "item_vector")

/-- The directives that last. -/
def lasting (words : List String) : List Directive :=
  ((directives words).filter fun d => d.1.lasts d.2).map Prod.fst

end Grammar

open Grammar (Directive)

def Use.directive? : Use → Option Directive
  | .saved name => some (.save name)
  | .loaded name _ => some (.load name)
  | .exchanged | .skipped => none

/-- What a gap saves, loads or computes, and the name for it. -/
def Gap.directive? (g : Gap) : Option Directive :=
  match g.content with
  | .nothing => none
  | .derivation derivation _ => some (.compute derivation.name)
  | .data p => p.use.directive?

namespace Grammar

variable {item : Option (Kind × Bool)} {isHidden : Bool} {words : List String}

/-- A word that gives no directive, whatever is behind it. -/
def Plain (word : String) : Prop := ∀ next, Directive.ofWord? word next = none

theorem lasting_cons (word : String) (rest : List String) :
    lasting (word :: rest) =
      ((Directive.ofWord? word rest.head?).filter (Directive.lasts rest.head?)).toList ++
        lasting rest := by
  rw [lasting, directives, List.filter_append, List.map_append]
  congr 1
  cases Directive.ofWord? word rest.head? with
  | none => rfl
  | some d =>
    simp only [Option.map_some, Option.toList_some, List.filter_singleton, Option.filter_some]
    cases d.lasts rest.head? <;> rfl

theorem lasting_plain {word : String} (plain : Plain word) (rest : List String) :
    lasting (word :: rest) = lasting rest := by
  rw [lasting_cons, plain]
  rfl

theorem Plain.of_letter {word : String} (letter : word.toList.head?.any Char.isAlpha = true)
    (other : word ≠ "compute") : Plain word := by
  intro next
  rw [Directive.ofWord?, if_neg other]
  split
  · rename_i spelled
    simp [spelled] at letter
  · rename_i spelled
    simp [spelled] at letter
  · rfl

theorem Plain.of_numeral {word : String} {n : Nat} (numeral : Numeral word n) : Plain word := by
  intro next
  obtain ⟨-, digits, -⟩ := numeral
  have no_letter {c : Char} {rest : List Char} (spelled : word.toList = c :: rest) :
      c.isDigit = true := digits c (spelled ▸ List.mem_cons_self)
  rw [Directive.ofWord?, if_neg]
  · split
    · rename_i spelled
      exact absurd (no_letter spelled) (by decide)
    · rename_i spelled
      exact absurd (no_letter spelled) (by decide)
    · rfl
  · rintro rfl
    exact absurd (digits 'c' (by decide)) (by decide)

theorem Typed.plain {type : String} {element : Layout.ElementType} (typed : Typed item type element) :
    Plain type := .of_letter typed.letter (typed.ne (by decide) (by rfl) (by decide))

theorem plain_mark : Plain "*" := fun _ => rfl

/-- A body gives no directives. -/
theorem lasting_body {shape : Shape} (body : Body item words shape) (rest : List String) :
    lasting (words ++ rest) = lasting rest := by
  have vector : Plain "vector" := fun _ => rfl
  have list : Plain "list" := fun _ => rfl
  have items : Plain "item_vector" := fun _ => rfl
  cases body with
  | scalar typed =>
    rw [List.cons_append, lasting_plain typed.plain, List.cons_append, lasting_plain plain_mark]
    rfl
  | openVector typed =>
    simp only [List.cons_append, lasting_plain, vector, typed.plain, plain_mark, List.nil_append]
  | vector typed told =>
    simp only [List.cons_append, lasting_plain, vector, typed.plain, Plain.of_numeral told.1,
      plain_mark, List.nil_append]
  | list told =>
    simp only [List.cons_append, lasting_plain, list, Plain.of_numeral told.1, List.nil_append]
  | itemVector known told =>
    have plain := (Typed.keyword known .untold trivial : Typed item _ _).plain
    rw [String.append_empty] at plain
    simp only [List.cons_append, lasting_plain, items, plain, Plain.of_numeral told.1,
      List.nil_append]

theorem ofWord?_save {name : String} (named : name ≠ "") (next : Option String) :
    Directive.ofWord? (">" ++ name) next = some (.save name) := by
  obtain ⟨c, rest, spelled⟩ := Layout.Token.cons_of_ne_empty named
  have text : (">" ++ name).toList = '>' :: c :: rest := by rw [String.toList_append, spelled]; rfl
  have other : ">" ++ name ≠ "compute" := by simp [← String.toList_inj]
  rw [Directive.ofWord?, if_neg other, text]
  change some (Directive.save (String.ofList (c :: rest))) = _
  rw [← spelled, String.ofList_toList]

theorem ofWord?_load {name : String} (named : name ≠ "") (next : Option String) :
    Directive.ofWord? ("<" ++ name) next = some (.load name) := by
  obtain ⟨c, rest, spelled⟩ := Layout.Token.cons_of_ne_empty named
  have text : ("<" ++ name).toList = '<' :: c :: rest := by rw [String.toList_append, spelled]; rfl
  have other : "<" ++ name ≠ "compute" := by simp [← String.toList_inj]
  rw [Directive.ofWord?, if_neg other, text]
  change some (Directive.load (String.ofList (c :: rest))) = _
  rw [← spelled, String.ofList_toList]

/-- The directives of a field ask for its use. -/
theorem lasting_signs {signs : List String} {use : Use} (directed : Signs isHidden signs use)
    (word : String) (rest : List String) :
    lasting (signs ++ word :: rest) =
      (use.directive?.filter (Directive.lasts (some word))).toList ++ lasting (word :: rest) := by
  have skip : Plain "skip" := fun _ => rfl
  cases directed with
  | none => cases isHidden <;> rfl
  | skip =>
    rw [List.singleton_append, lasting_plain skip]
    rfl
  | save named =>
    rw [List.singleton_append, lasting_cons, ofWord?_save named]
    rfl
  | skipSave named =>
    rw [List.cons_append, lasting_plain skip, List.singleton_append, lasting_cons,
      ofWord?_save named]
    rfl
  | load named =>
    rw [List.singleton_append, lasting_cons, ofWord?_load named]
    rfl

theorem lasts_of_ne {word : String} (other : word ≠ "item_vector") (d : Directive) :
    d.lasts (some word) = true := by
  simp [Directive.lasts, other]

theorem filter_lasts {word : String} (other : word ≠ "item_vector") (d : Option Directive) :
    d.filter (Directive.lasts (some word)) = d := by
  cases d with
  | none => rfl
  | some d => rw [Option.filter_some, lasts_of_ne other, if_pos rfl]

/-- The directive that lasts of a head. -/
def Outline.directive? : Outline → Option Directive
  | .derivation d => some (.compute d.name)
  | .field _ (.list ..) => none
  | .field use _ => use.directive?

/-- Nothing is lost of the words of a head but the name of an item vector that is to be saved. -/
theorem lasting_head {outline : Outline} (head : HeadForm item isHidden words outline)
    (rest : List String) :
    lasting (words ++ rest) = outline.directive?.toList ++ lasting rest := by
  cases head with
  | @compute name derivation known =>
    have named : name = derivation.name ∧ name = "image_params" := by
      unfold Derivation.ofName? at known
      split at known
      · rename_i same
        cases known
        exact ⟨same, same⟩
      · cases known
    have plain : Plain name := by
      rw [named.2]
      exact fun _ => rfl
    rw [List.cons_append, lasting_cons, List.singleton_append, lasting_plain plain, List.head?_cons,
      named.1]
    rfl
  | @field signs body use shape directed shaped ruled =>
    obtain ⟨word, others, rfl, -⟩ := shaped.first
    rw [List.append_assoc, List.cons_append, lasting_signs directed, ← List.cons_append, lasting_body shaped]
    congr 2
    cases shaped with
    | scalar typed => exact filter_lasts (typed.ne (by decide) (by rfl) (by decide)) _
    | openVector | vector => exact filter_lasts (by decide) _
    | itemVector =>
      cases use with
      | exchanged | skipped | saved => rfl
      | loaded => cases Fits.unloaded ruled.2 nofun
    | list told =>
      cases use with
      | exchanged | skipped => rfl
      | saved => exact (ruled.2 _ rfl).elim
      | loaded => cases Fits.unloaded ruled.2 nofun

/-- The directives that last of the words of several fields are those of their gaps. -/
theorem lasting_all {pieces : List (Field × List String)}
    (each : ∀ f ∈ pieces, ∀ waiting rest,
      lasting (f.2 ++ rest) = (f.1.gaps waiting).1.filterMap Gap.directive? ++ lasting rest)
    (waiting : List Word) (rest : List String) :
    lasting (pieces.flatMap Prod.snd ++ rest) =
      (Field.allGaps waiting (pieces.map Prod.fst)).1.filterMap Gap.directive? ++ lasting rest := by
  induction pieces generalizing waiting with
  | nil => rfl
  | cons f others ih =>
    rw [List.flatMap_cons, List.append_assoc, each f List.mem_cons_self waiting,
      ih (fun f member => each f (List.mem_cons_of_mem _ member)) (f.1.gaps waiting).2,
      List.map_cons, Field.allGaps]
    dsimp only
    rw [List.filterMap_append, List.append_assoc]

theorem filterMap_single (g : Gap) : [g].filterMap Gap.directive? = g.directive?.toList := by
  rw [List.filterMap_cons]
  cases g.directive? <;> rfl

/-- The directives that last of the words of a field are those of its gaps. -/
theorem lasting_spells {f : Field} (spells : Spells item isHidden f words) (waiting : List Word)
    (rest : List String) :
    lasting (words ++ rest) = (f.gaps waiting).1.filterMap Gap.directive? ++ lasting rest := by
  induction spells generalizing waiting rest with
  | derive head => exact lasting_head head rest
  | @data _ _ _ tags payload shape head flat =>
    have kept : (Outline.field payload.use shape).directive? = payload.use.directive? := by
      cases shape with
      | scalar | vector => rfl
      | list inner n => exact (flat inner n rfl).elim
    rw [lasting_head head, kept, Field.gaps]
    split
    · rw [filterMap_single]
      rfl
    · rw [filterMap_single]
      rfl
  | @group _ _ _ tags use inner n inside head each filled ih =>
    rw [List.append_assoc, lasting_head head, Field.gaps, lasting_all ih]
    rfl

end Grammar

namespace Layout

/-- What a section asks to be saved, loaded and computed is what the gaps of its layout do, in order
and under the same names, but for the item vectors that are to be saved. -/
theorem compileSections_directives {grammar : String} {layouts : List Layout}
    (compiled : compileSections grammar = .ok layouts) :
    List.Forall₂ (fun words layout => layout.gaps.filterMap Gap.directive? = Grammar.lasting words)
      (Grammar.sections grammar) layouts := by
  obtain ⟨silent, rfl⟩ := compileSections_ok.mp compiled
  rw [← Token.text_sections_scan, List.forall₂_map_left_iff, List.forall₂_map_right_iff,
    List.forall₂_same]
  intro tokens member
  obtain ⟨pieces, fields, words, each⟩ := readFields_spells (silent tokens member)
  have kept := Grammar.lasting_all (fun f inside => Grammar.lasting_spells (each f inside))
    (wrapping tokens (readFields tokens).1) []
  rw [List.append_nil, ← words, ← fields] at kept
  rw [kept, ofFields, Field.layOut]
  dsimp only
  split
  · exact (List.append_nil _).symm
  · rw [List.filterMap_append]
    rfl

end Layout

end TagWire
