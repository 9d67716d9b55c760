import TagWire.Proofs.Grammar.Heads
import TagWire.Proofs.Layout.Loops

/-!
# Fields and their words

Fields are read from the words of fields, each list to the end that its length tells, and from nothing
else.

- `Grammar.Spells`: the words that a field was read from.
- `Parse.listFields_spells`, `Parse.sectionFields_spells`: what is read is spelled.
- `Parse.readField_form`: a field is read from its words.
-/

namespace TagWire

namespace Grammar

/-- The words that a field was read from, given what `item` stands for around it and whether it is
inside of what is hidden. -/
inductive Spells : Option (Kind × Bool) → Bool → Field → List String → Prop
  | derive {item isHidden words derivation origin}
      (head : HeadForm item isHidden words (.derivation derivation)) :
      Spells item isHidden (.derive derivation origin) words
  | data {item isHidden words tags payload shape}
      (head : HeadForm item isHidden words (.field payload.use shape))
      (flat : ∀ inner n, shape ≠ .list inner n) : Spells item isHidden (.data tags payload) words
  | group {item isHidden words tags use inner n} {inside : List (Field × List String)}
      (head : HeadForm item isHidden words (.field use (.list inner n)))
      (each : ∀ f ∈ inside, Spells inner use.isHidden f.1 f.2)
      (filled : (Shape.list inner n).Filled use.isHidden (inside.map (·.1.isVisible))) :
      Spells item isHidden (.group use.isHidden tags (inside.map Prod.fst))
        (words ++ inside.flatMap Prod.snd)

variable {item : Option (Kind × Bool)} {isHidden : Bool} {words : List String} {f : Field}

/-- What a field was read from are words of a field. -/
theorem Spells.form (spells : Spells item isHidden f words) :
    Form Permitted item isHidden (f.isVisible, words) := by
  induction spells with
  | derive head =>
    cases head with
    | compute known => exact .compute known
  | @data item isHidden words tags payload shape head flat =>
    generalize used : payload.use = use at head
    cases head with
    | field directed shaped ruled =>
      have filled : shape.Filled use.isHidden [] := by
        cases shape with
        | scalar | vector => rfl
        | list inner n => exact (flat inner n rfl).elim
      have none_inside : ∀ f ∈ ([] : List (Bool × List String)),
          Form Permitted shape.inner use.isHidden f := by simp
      have form := Form.field directed shaped ruled none_inside filled
      simpa [Field.isVisible, used] using form
  | @group item isHidden words tags use inner n inside head each filled ih =>
    cases head with
    | field directed shaped ruled =>
      have forms : ∀ f ∈ inside.map fun f => (f.1.isVisible, f.2),
          Form Permitted inner use.isHidden f := by
        intro _ member
        obtain ⟨f, inside_f, rfl⟩ := List.mem_map.mp member
        exact ih f inside_f
      have form := Form.field directed shaped ruled forms (by rw [List.map_map]; exact filled)
      simpa [Field.isVisible, List.flatMap_map] using form

end Grammar

namespace Layout.Parse

open Grammar (Form Spells Shape Permitted)

variable {scope : Scope}

/-- Fields are spelled by the tokens that were taken for them. -/
structure SpellsAll (scope : Scope) (fields : List Field) (taken : List Token)
    (pieces : List (Field × List String)) : Prop where
  fields : fields = pieces.map Prod.fst
  words : taken.map Token.text = pieces.flatMap Prod.snd
  each : ∀ f ∈ pieces, Spells scope.item scope.isHidden f.1 f.2

theorem SpellsAll.cons {fields : List Field} {taken further : List Token} {f : Field}
    {pieces : List (Field × List String)}
    (first : Spells scope.item scope.isHidden f (taken.map Token.text))
    (others : SpellsAll scope fields further pieces) :
    SpellsAll scope (f :: fields) (taken ++ further) ((f, taken.map Token.text) :: pieces) where
  fields := by rw [others.fields, List.map_cons]
  words := by rw [List.map_append, others.words, List.flatMap_cons]
  each := by
    rintro piece (_ | ⟨_, member⟩)
    · exact first
    · exact others.each piece member

/-- How far a list of so many fields is filled from a place where some have been found. -/
def FilledFrom (isHidden : Bool) (length found : Nat) (visible : List Bool) : Prop :=
  if isHidden then visible.length + found = length
  else visible.count true + found = length ∧ visible.getLast? ≠ some false

/-- A list that is not filled yet goes on with a field. It can only end with one that counts. -/
theorem filledFrom_cons {isHidden first : Bool} {length found : Nat} {visible : List Bool} :
    FilledFrom isHidden length found (first :: visible) ↔ found < length ∧
      FilledFrom isHidden length (if isHidden || first then found + 1 else found) visible := by
  unfold FilledFrom
  cases isHidden with
  | true =>
    simp only [if_true, Bool.true_or, List.length_cons]
    omega
  | false =>
    have some_there (counts : visible.getLast? = some true) : 0 < visible.count true :=
      List.count_pos_iff.mpr (List.mem_of_getLast? counts)
    simp only [Bool.false_or, Bool.false_eq_true, if_false]
    rw [List.getLast?_cons, List.count_cons]
    cases last : visible.getLast? with
    | none =>
      rw [List.getLast?_eq_none_iff] at last
      simp only [last, List.count_nil, Option.getD_none]
      cases first <;> grind
    | some b => cases first <;> cases b <;> grind

/-- A field is spelled by its head and, inside a list, by the fields there. -/
theorem readField_spells {fuel : Nat} {t : Token} {rest behind : List Token} {f : Field}
    (inner : ∀ (scope : Scope) length inside fields, inside <:+ rest →
      listFields fuel scope length 0 ⟨inside, []⟩ = (fields, ⟨behind, []⟩) →
      ∃ taken pieces, inside = taken ++ behind ∧ SpellsAll scope fields taken pieces ∧
        FilledFrom scope.isHidden length 0 (pieces.map (·.1.isVisible)))
    (reading : FieldRead fuel scope (t :: rest) f behind) :
    ∃ taken, t :: rest = taken ++ behind ∧
      Spells scope.item scope.isHidden f (taken.map Token.text) := by
  cases reading with
  | whole head =>
    obtain ⟨taken, outline, split, form, outlines⟩ := Head.read_sound head
    refine ⟨taken, split, ?_⟩
    cases outline with
    | derivation derivation =>
      cases f with
      | derive => exact .derive (outlines ▸ form)
      | data | group => exact outlines.elim
    | field use shape =>
      cases f with
      | data tags payload =>
        obtain ⟨rfl, flat⟩ := outlines
        exact .data form flat
      | derive | group => exact outlines.elim
  | @group isHidden words item length inside fields _ head shorter list =>
    obtain ⟨taken, outline, split, form, outlines⟩ := Head.read_sound head
    cases outline with
    | derivation => exact outlines.elim
    | field use shape =>
      obtain ⟨rfl, rfl⟩ := outlines
      obtain ⟨further, pieces, rfl, spelled, filled⟩ := inner _ _ _ _ shorter list
      refine ⟨taken ++ further, by rw [split, List.append_assoc], ?_⟩
      rw [List.map_append, spelled.words, spelled.fields]
      exact .group form spelled.each filled

/-- The fields of a list are spelled by the tokens that are taken, and fill it. -/
theorem listFields_spells {fuel length found : Nat} {tokens behind : List Token}
    {fields : List Field} (enough : tokens.length < fuel) (room : found ≤ length)
    (read : listFields fuel scope length found ⟨tokens, []⟩ = (fields, ⟨behind, []⟩)) :
    ∃ taken pieces, tokens = taken ++ behind ∧ SpellsAll scope fields taken pieces ∧
      FilledFrom scope.isHidden length found (pieces.map (·.1.isVisible)) := by
  induction fuel generalizing scope length found tokens behind fields with
  | zero => exact absurd enough (Nat.not_lt_zero _)
  | succ fuel ih =>
    rcases listFields_cases (by rw [read]) with
      ⟨complete, ended⟩ | ⟨f, t, rest, mid, open_list, rfl, shorter, -, reading, first⟩
    · rw [read] at ended
      cases ended
      obtain rfl := Nat.le_antisymm room complete
      refine ⟨[], [], rfl, ⟨rfl, rfl, nofun⟩, ?_⟩
      unfold FilledFrom
      split <;> simp
    · have enough := Nat.lt_of_succ_lt_succ enough
      rw [read] at first
      obtain ⟨rfl, ended⟩ := Prod.mk.inj first
      obtain ⟨taken, split, spells⟩ := readField_spells
        (fun scope length inside fields within read =>
          ih (Nat.lt_of_le_of_lt within.length_le enough) (Nat.zero_le _) read) reading
      have room : (if scope.isHidden || f.isVisible then found + 1 else found) ≤ length := by
        split <;> omega
      obtain ⟨further, pieces, rfl, spelled, filled⟩ :=
        ih (Nat.lt_of_le_of_lt shorter.length_le enough) room (Prod.ext rfl ended.symm)
      refine ⟨taken ++ further, _, by rw [split, List.append_assoc], spelled.cons spells, ?_⟩
      rw [List.map_cons]
      exact filledFrom_cons.mpr ⟨open_list, filled⟩

/-- The fields of a section are spelled by all of its tokens. -/
theorem sectionFields_spells {wrapped : Bool} {fuel visible : Nat} {tokens : List Token}
    (enough : tokens.length < fuel)
    (silent : (sectionFields wrapped fuel scope visible ⟨tokens, []⟩).2.findings = []) :
    ∃ pieces, SpellsAll scope (sectionFields wrapped fuel scope visible ⟨tokens, []⟩).1 tokens
      pieces := by
  induction fuel generalizing visible tokens with
  | zero => exact absurd enough (Nat.not_lt_zero _)
  | succ fuel ih =>
    rcases sectionFields_cases silent with
      ⟨rfl, read⟩ | ⟨f, t, rest, mid, rfl, shorter, -, reading, -, read⟩
    · rw [read]
      exact ⟨[], rfl, rfl, nofun⟩
    · rw [read] at silent ⊢
      have enough := Nat.lt_of_succ_lt_succ enough
      obtain ⟨taken, split, spells⟩ := readField_spells
        (fun scope length inside fields within read =>
          listFields_spells (Nat.lt_of_le_of_lt within.length_le enough) (Nat.zero_le _) read)
        reading
      obtain ⟨pieces, spelled⟩ := ih (Nat.lt_of_le_of_lt shorter.length_le enough) silent
      rw [split]
      exact ⟨_, spelled.cons spells⟩

/-! ## Fields from words -/

/-- The words of a field are read as a field, whatever stands behind them. -/
def ReadsForm (item : Option (Kind × Bool)) (isHidden : Bool) (f : Bool × List String) : Prop :=
  ∀ (stop : Nat) (tokens behind : List Token) (findings : List Finding) (fuel : Nat),
    tokens.map Token.text = f.2 → tokens.length ≤ fuel →
    ∃ field, readField fuel ⟨stop, item, isHidden⟩ ⟨tokens ++ behind, findings⟩ =
      (some field, ⟨behind, findings⟩) ∧ field.isVisible = f.1

/-- The first of several fields is read from its words, and leaves those of the others. -/
theorem ReadsForm.first {f : Bool × List String} {others : List String} {tokens : List Token}
    {fuel : Nat} (reads : ReadsForm scope.item scope.isHidden f) (some_words : f.2 ≠ [])
    (spelled : tokens.map Token.text = f.2 ++ others) (enough : tokens.length < fuel + 1)
    (behind : List Token) (findings : List Finding) :
    ∃ t rest left field, tokens = t :: rest ∧ left.map Token.text = others ∧ left.length < fuel ∧
      readField fuel scope ⟨tokens ++ behind, findings⟩ =
        (some field, ⟨left ++ behind, findings⟩) ∧ countsAsVisible (some field) = f.1 := by
  obtain ⟨taken, left, rfl, words, left_words⟩ := List.map_eq_append_iff.mp spelled
  obtain ⟨t, rest, some_taken⟩ : ∃ t rest, taken = t :: rest := by
    apply List.exists_cons_of_ne_nil
    rintro rfl
    exact some_words words.symm
  rw [List.length_append] at enough
  obtain ⟨field, read, visible⟩ :=
    reads scope.stop taken (left ++ behind) findings fuel words (by omega)
  refine ⟨t, rest ++ left, left, field, by rw [some_taken]; rfl, left_words, ?_, ?_, visible⟩
  · rw [some_taken, List.length_cons] at enough
    omega
  · rw [List.append_assoc, read]

/-- The fields of a list are read to the end that its length tells. -/
theorem listFields_form {inside : List (Bool × List String)} {tokens : List Token}
    {fuel length found : Nat}
    (each : ∀ f ∈ inside, f.2 ≠ [] ∧ ReadsForm scope.item scope.isHidden f)
    (filled : FilledFrom scope.isHidden length found (inside.map Prod.fst))
    (spelled : tokens.map Token.text = inside.flatMap Prod.snd) (enough : tokens.length < fuel)
    (behind : List Token) (findings : List Finding) :
    ∃ fields, listFields fuel scope length found ⟨tokens ++ behind, findings⟩ =
      (fields, ⟨behind, findings⟩) := by
  induction inside generalizing tokens fuel found with
  | nil =>
    obtain rfl := List.map_eq_nil_iff.mp spelled
    obtain ⟨fuel, rfl⟩ := Nat.exists_eq_succ_of_ne_zero (Nat.ne_of_gt enough)
    have complete : found = length := by
      unfold FilledFrom at filled
      split at filled <;> simpa using filled
    refine ⟨[], ?_⟩
    rw [listFields_succ, if_pos complete.ge]
    rfl
  | cons f inside ih =>
    obtain ⟨fuel, rfl⟩ : ∃ m, fuel = m + 1 := Nat.exists_eq_succ_of_ne_zero (by omega)
    obtain ⟨room, filled⟩ := filledFrom_cons.mp filled
    rw [List.flatMap_cons] at spelled
    obtain ⟨some_words, reads⟩ := each f List.mem_cons_self
    obtain ⟨t, rest, others, field, begins, other_words, enough, first, counts⟩ :=
      reads.first some_words spelled enough behind findings
    have some_left : tokens ++ behind ≠ [] := by
      rw [begins]
      exact List.cons_ne_nil _ _
    obtain ⟨fields, further⟩ := ih (fun f member => each f (List.mem_cons_of_mem _ member)) filled
      other_words enough
    refine ⟨field :: fields, ?_⟩
    rw [listFields_succ, if_neg (Nat.not_le_of_lt room), if_neg some_left, first]
    simp only [counts, Option.toList_some, List.singleton_append]
    simp only [Bool.or_eq_true] at further
    rw [further]

/-- The fields of a section are read to its end. -/
theorem sectionFields_form {inside : List (Bool × List String)} {tokens : List Token}
    {wrapped : Bool} {fuel visible : Nat}
    (each : ∀ f ∈ inside, f.2 ≠ [] ∧ ReadsForm scope.item scope.isHidden f)
    (single : wrapped = false → (inside.map Prod.fst).count true + visible ≤ 1)
    (spelled : tokens.map Token.text = inside.flatMap Prod.snd) (enough : tokens.length < fuel) :
    ∃ fields, sectionFields wrapped fuel scope visible ⟨tokens, []⟩ = (fields, ⟨[], []⟩) := by
  induction inside generalizing tokens fuel visible with
  | nil =>
    obtain rfl := List.map_eq_nil_iff.mp spelled
    obtain ⟨fuel, rfl⟩ := Nat.exists_eq_succ_of_ne_zero (Nat.ne_of_gt enough)
    exact ⟨[], by rw [sectionFields_succ]⟩
  | cons f inside ih =>
    obtain ⟨fuel, rfl⟩ : ∃ m, fuel = m + 1 := Nat.exists_eq_succ_of_ne_zero (by omega)
    rw [List.flatMap_cons] at spelled
    obtain ⟨some_words, reads⟩ := each f List.mem_cons_self
    obtain ⟨t, rest, others, field, begins, other_words, enough, first, counts⟩ :=
      reads.first some_words spelled enough [] []
    rw [List.append_nil, List.append_nil] at first
    rw [List.map_cons, List.count_cons] at single
    have others_single : wrapped = false →
        (inside.map Prod.fst).count true + (if f.1 then visible + 1 else visible) ≤ 1 := by
      intro unwrapped
      have bound := single unwrapped
      cases visible_first : f.1 <;> simp [visible_first] at bound ⊢ <;> omega
    obtain ⟨fields, further⟩ :=
      ih (fun f member => each f (List.mem_cons_of_mem _ member)) others_single other_words enough
    refine ⟨field :: fields, ?_⟩
    have no_second : ¬ (f.1 = true ∧ (!wrapped) = true ∧
        (if f.1 = true then visible + 1 else visible) = 2) := by
      rintro ⟨visible_first, unwrapped, two⟩
      have bound := single (by simpa using unwrapped)
      simp only [visible_first, beq_self_eq_true, if_true] at bound two
      omega
    rw [sectionFields_succ, begins]
    dsimp only
    rw [← begins, first]
    simp only [counts, Option.toList_some, List.singleton_append]
    rw [if_neg no_second, further]

end Layout.Parse

end TagWire
