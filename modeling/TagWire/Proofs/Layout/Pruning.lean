import TagWire.Proofs.Layout.Heads
import TagWire.Proofs.Layout.Locality
import TagWire.Proofs.Layout.Loops

/-!
# Sections without hidden fields

Fields that are skipped, saved or computed can be left out of a section, with all their tokens. What
is left is read as it was, because the lists around hidden fields do not count them.

- `withoutHidden`: the tokens that are left.
- `Field.pruned`: the fields that are left.
- `readFields_withoutHidden`: these are the fields of those tokens.
-/

namespace TagWire

namespace Field

mutual

/-- The field without the hidden fields inside it. -/
def pruned : Field → Field
  | derive derivation origin => derive derivation origin
  | data words payload => data words payload
  | group isHidden words fields => group isHidden words (allPruned fields)

/-- Fields without the hidden ones, inside them too. -/
def allPruned : List Field → List Field
  | [] => []
  | field :: rest => if field.isVisible then field.pruned :: allPruned rest else allPruned rest

end

theorem isVisible_pruned (f : Field) : f.pruned.isVisible = f.isVisible := by
  cases f <;> rfl

end Field

namespace Layout

open Token (Respelled)

/-- Whether a field that begins with the token is skipped, saved or computed. -/
def Token.hides (t : Token) : Bool :=
  t.isWord "skip" || t.lexeme = .save || t.isWord "compute"

/-- The tokens behind a field, with all that it holds. -/
def behindField (fuel : Nat) (scope : Scope) (tokens : List Token) : List Token :=
  (Parse.field (fun scope length => Parse.listFields fuel scope length 0) scope ⟨tokens, []⟩).2.rest

/-- What is left of the tokens of a visible field, and the tokens behind it, given the same for the
fields of a list. -/
def keepField (keepList : Scope → Nat → List Token → List Token × List Token) (scope : Scope)
    (tokens : List Token) : List Token × List Token :=
  match (Head.read scope).run tokens with
  | (.ok (.opening isHidden _ item length), inside) =>
    let (kept, behind) := keepList { scope with item, isHidden } length inside
    (tokens.take (tokens.length - inside.length) ++ kept, behind)
  | (_, behind) => (tokens.take (tokens.length - behind.length), behind)

/-- What is left of the tokens of fields, and the tokens behind them. The fields of a list end when
`left` more visible ones have been read, those of a section end with its tokens. Each field takes a
token, so `fuel` need only exceed the number of tokens. -/
def keepFields : (fuel : Nat) → Scope → (left : Option Nat) → List Token → List Token × List Token
  | 0, _, _, tokens => ([], tokens)
  | fuel + 1, scope, left, tokens =>
    if left = some 0 then ([], tokens)
    else
      match tokens with
      | [] => ([], [])
      | t :: rest =>
        if t.hides then keepFields fuel scope left (behindField fuel scope (t :: rest))
        else
          let (own, behind) :=
            keepField (fun scope length => keepFields fuel scope (some length)) scope (t :: rest)
          let (others, behind) := keepFields fuel scope (left.map (· - 1)) behind
          (own ++ others, behind)

/-- The tokens of a section without those of the fields that are skipped, saved or computed, inside
lists too. -/
def withoutHidden (tokens : List Token) : List Token :=
  (keepFields (tokens.length + 1) ⟨Token.stopOf tokens, none, false⟩ none tokens).1

section
variable {fuel : Nat} {scope : Scope} {left : Option Nat} {t : Token}
  {tokens rest own others behind after : List Token}

theorem keepFields_none : keepFields fuel scope (some 0) tokens = ([], tokens) := by
  cases fuel <;> rfl

theorem keepFields_hidden (incomplete : left ≠ some 0) (hides : t.hides = true) :
    keepFields (fuel + 1) scope left (t :: rest) =
      keepFields fuel scope left (behindField fuel scope (t :: rest)) := by
  change ite _ _ (ite _ _ _) = _
  rw [if_neg incomplete, if_pos hides]

theorem keepFields_visible (incomplete : left ≠ some 0) (plain : t.hides = false)
    (first : keepField (fun scope length => keepFields fuel scope (some length)) scope (t :: rest) =
      (own, behind))
    (further : keepFields fuel scope (left.map (· - 1)) behind = (others, after)) :
    keepFields (fuel + 1) scope left (t :: rest) = (own ++ others, after) := by
  change ite _ _ (ite _ _ _) = _
  rw [if_neg incomplete, if_neg (by simp [plain]), first]
  dsimp only
  rw [further]

end

def Head.isVisible : Head → Bool
  | whole field => field.isVisible
  | opening isHidden .. => !isHidden

/-- Outside of hidden lists a field is hidden if its first token says so. -/
theorem Head.read_hides {scope : Scope} {t : Token} {tokens rest : List Token} {head : Head}
    (visible : scope.isHidden = false)
    (h : (Head.read scope).run (t :: tokens) = (.ok head, rest)) : head.isVisible = !t.hides := by
  obtain ⟨_, _, first_eq, computed | ⟨no_compute, use, matched, hidden, -⟩⟩ := Head.read_cases h
  · obtain ⟨compute, derivation, origin, rfl⟩ := computed
    cases first_eq
    simp [Token.hides, compute, isVisible, Field.isVisible]
  · cases first_eq
    rw [visible, Bool.false_or] at hidden
    rw [Token.hides, no_compute, Bool.or_false, ← hidden]
    cases head with
    | whole f =>
      cases f with
      | data words p =>
        obtain ⟨-, rfl⟩ := matched
        rfl
      | derive | group => exact matched.elim
    | opening isHidden words item length =>
      obtain ⟨rfl, -⟩ := matched
      rfl

/-- A field that has no others inside it is left as it is. -/
theorem Head.read_whole {scope : Scope} {tokens rest : List Token} {f : Field}
    (h : (Head.read scope).run tokens = (.ok (.whole f), rest)) : f.pruned = f := by
  cases f with
  | derive | data => rfl
  | group => rcases Head.read_ok h with ⟨_, _, ⟨⟩, _⟩ | ⟨_, matched, _⟩; exact matched.elim

/-- The tokens that a head takes are some, and do for it in any other place. -/
theorem Head.read_taken {scope : Scope} {tokens rest : List Token} {head : Head}
    (some_left : tokens ≠ []) (h : (Head.read scope).run tokens = (.ok head, rest)) :
    ∃ taken, tokens = taken ++ rest ∧ tokens.take (tokens.length - rest.length) = taken ∧
      taken ≠ [] ∧ ∀ (scope' : Scope) taken' rest', scope.item = scope'.item →
        scope.isHidden = scope'.isHidden → Respelled taken taken' →
          (Head.read scope').run (taken' ++ rest') = (.ok head, rest') := by
  obtain ⟨first, behind, rfl, shorter⟩ := Head.read_shorter scope some_left
  rw [h] at shorter
  obtain ⟨between, rfl⟩ := shorter
  refine ⟨first :: between, rfl, ?_, List.cons_ne_nil first between, ?_⟩
  · rw [← List.cons_append, List.length_append, Nat.add_sub_cancel, List.take_left]
  · intro scope' taken' rest' item hidden spelled
    obtain ⟨taken, taken_eq, again⟩ := Head.read_echoes item hidden h
    obtain rfl := List.append_cancel_right (taken_eq.symm.trans (List.cons_append ..).symm)
    exact again taken' rest' spelled

namespace Parse

/-- Reading `kept` in any other place, with other tokens behind it, gives `result`. -/
def Rereads {α : Type} (scope : Scope) (kept : List Token) (read : Nat → Scope → Parse α)
    (result : α) : Prop :=
  ∀ (fuel : Nat) (scope' : Scope) kept' rest, scope.item = scope'.item → scope'.isHidden = false →
    Respelled kept kept' → (kept' ++ rest).length ≤ fuel →
      read fuel scope' ⟨kept' ++ rest, []⟩ = (result, ⟨rest, []⟩)

/-- What is kept of tokens that were read with the answer `result`. -/
structure Keeps {α : Type} (scope : Scope) (tokens kept behind : List Token)
    (read : Nat → Scope → Parse α) (result : α) : Prop where
  part : (kept ++ behind).Sublist tokens
  rereads : Rereads scope kept read result

/-- The fields of a list of which `found` have been read. -/
def readRest (length found fuel : Nat) (scope : Scope) : Parse (List Field) :=
  listFields (fuel + 1) scope length found

/-- What is kept of the rest of a list that was read without a finding. -/
def ListKeeps (fuel : Nat) (scope : Scope) (length found : Nat) (tokens : List Token) : Prop :=
  let read := listFields fuel scope length found ⟨tokens, []⟩
  read.2.findings = [] → ∃ kept,
    keepFields fuel scope (some (length - found)) tokens = (kept, read.2.rest) ∧
      Keeps scope tokens kept read.2.rest (readRest length found) (Field.allPruned read.1)

variable {scope : Scope} {tokens : List Token}

/-- The head of a list is read again, and so are the fields that the list keeps. -/
theorem group_rereads {taken kept : List Token} {words : List Word} {item : Option (Kind × Bool)}
    {length : Nat} {fields : List Field} (some_taken : taken ≠ [])
    (head : ∀ (scope' : Scope) taken' rest', scope.item = scope'.item → scope'.isHidden = false →
      Respelled taken taken' → (Head.read scope').run (taken' ++ rest') =
        (.ok (.opening false words item length), rest'))
    (inside : Rereads { scope with item, isHidden := false } kept (readRest length 0) fields) :
    Rereads scope (taken ++ kept) readField (some (.group false words fields)) := by
  intro fuel scope' kept' rest' item' visible spelled enough
  obtain ⟨taken', kept', rfl, lengths, spelled_taken, spelled_kept⟩ := spelled.split
  have some_taken' : 0 < taken'.length := lengths ▸ List.length_pos_iff.mpr some_taken
  rw [List.append_assoc, List.length_append] at enough
  obtain ⟨fuel, rfl⟩ : ∃ n, fuel = n + 1 := ⟨fuel - 1, by omega⟩
  have read := head scope' taken' (kept' ++ rest') item' visible spelled_taken
  have inside := inside fuel { scope' with item, isHidden := false } kept' rest' rfl rfl
    spelled_kept (by omega)
  rw [readRest] at inside
  rw [readField_run, List.append_assoc, read]
  dsimp only
  rw [inside]

/-- A visible field keeps its head, and what its list keeps. -/
theorem field_keeps {fuel : Nat} {t : Token} {rest behind : List Token} {f : Field}
    (inner : ∀ (scope : Scope) length tokens, scope.isHidden = false → tokens.length < fuel →
      ListKeeps fuel scope length 0 tokens)
    (visible : scope.isHidden = false) (enough : rest.length < fuel)
    (reading : FieldRead fuel scope (t :: rest) f behind) :
    f.isVisible = !t.hides ∧ (t.hides = false → ∃ kept,
      keepField (fun scope length => keepFields fuel scope (some length)) scope (t :: rest) =
          (kept, behind) ∧
        kept ≠ [] ∧ Keeps scope (t :: rest) kept behind readField (some f.pruned)) := by
  have some_left := List.cons_ne_nil t rest
  cases reading with
  | whole head =>
    obtain ⟨taken, split, take, some_taken, again⟩ := Head.read_taken some_left head
    rw [visible] at again
    refine ⟨Head.read_hides visible head, fun plain => ⟨taken, ?_, some_taken, ?_, ?_⟩⟩
    · rw [keepField, head]
      exact congrArg (Prod.mk · behind) take
    · exact split ▸ List.Sublist.refl (t :: rest)
    · intro fuel scope' kept' rest' item visible' spelled _
      rw [readField_run, again scope' kept' rest' item visible'.symm spelled,
        Head.read_whole head]
  | @group isHidden words item length inside fields _ head shorter list =>
    obtain ⟨taken, split, take, some_taken, again⟩ := Head.read_taken some_left head
    rw [visible] at again
    have hides : (!isHidden) = !t.hides := Head.read_hides visible head
    refine ⟨hides, fun plain => ?_⟩
    obtain rfl : isHidden = false := by simpa [plain] using hides
    obtain ⟨kept, keeps, part, rereads⟩ := inner { scope with item, isHidden := false } length
      inside rfl (Nat.lt_of_le_of_lt shorter.length_le enough) (by rw [list])
    rw [list] at keeps part rereads
    rw [Nat.sub_zero] at keeps
    refine ⟨taken ++ kept, ?_, ?_, ?_, ?_⟩
    · rw [keepField, head]
      dsimp only
      rw [take, keeps]
    · exact List.append_ne_nil_of_left_ne_nil some_taken kept
    · rw [split, List.append_assoc]
      exact part.append_left taken
    · exact group_rereads some_taken (fun scope' taken' rest' item' visible' =>
        again scope' taken' rest' item' visible'.symm) rereads

theorem behindField_eq {fuel : Nat} {behind : List Token} {f : Option Field}
    (h : readField fuel scope ⟨tokens, []⟩ = (f, ⟨behind, []⟩)) :
    behindField fuel scope tokens = behind := by
  change (readField fuel scope ⟨tokens, []⟩).2.rest = _
  rw [h]

/-- The rest of a list is read again from its first field and the others. -/
theorem rest_rereads {own others : List Token} {f : Field} {fields : List Field}
    {length found : Nat} (incomplete : found < length) (counts : f.isVisible = true)
    (some_own : own ≠ []) (first : Rereads scope own readField (some f))
    (further : Rereads scope others (readRest length (found + 1)) fields) :
    Rereads scope (own ++ others) (readRest length found) (f :: fields) := by
  intro fuel scope' kept' rest item visible spelled enough
  obtain ⟨own', others', rfl, lengths, spelled_own, spelled_others⟩ := spelled.split
  have some_own' : 0 < own'.length := lengths ▸ List.length_pos_iff.mpr some_own
  rw [List.append_assoc, List.length_append] at enough
  obtain ⟨fuel, rfl⟩ : ∃ n, fuel = n + 1 := ⟨fuel - 1, by omega⟩
  have some_left : own' ++ (others' ++ rest) ≠ [] :=
    List.append_ne_nil_of_left_ne_nil (List.length_pos_iff.mp some_own') _
  have first := first (fuel + 1) scope' own' (others' ++ rest) item visible spelled_own
    (by rw [List.length_append]; exact enough)
  have further := further fuel scope' others' rest item visible spelled_others (by omega)
  rw [readRest] at further
  rw [readRest, listFields_succ, if_neg (Nat.not_le_of_lt incomplete), List.append_assoc,
    if_neg some_left, first]
  dsimp only
  rw [visible, countsAsVisible, Option.map_some, Option.getD_some, counts, if_pos (by decide),
    further]
  rfl

/-- A list keeps what its visible fields keep. -/
theorem listFields_keeps (fuel : Nat) {length found : Nat} (outside : scope.isHidden = false)
    (enough : tokens.length < fuel) : ListKeeps fuel scope length found tokens := by
  induction fuel generalizing scope tokens length found with
  | zero => exact absurd enough (Nat.not_lt_zero _)
  | succ fuel ih =>
    intro silent
    rcases listFields_cases silent with
      ⟨complete, read⟩ | ⟨f, t, rest, behind, more, rfl, shorter, first, reading, read⟩
    · rw [read, Nat.sub_eq_zero_of_le complete, keepFields_none]
      refine ⟨[], rfl, List.Sublist.refl _, ?_⟩
      intro fuel scope' kept' rest _ _ spelled _
      obtain rfl := spelled.nil
      rw [readRest, listFields_succ, if_pos complete]
      rfl
    · have incomplete : some (length - found) ≠ some 0 := by
        rw [Ne, Option.some.injEq]
        omega
      have enough := Nat.lt_of_succ_lt_succ enough
      obtain ⟨counts, keeps⟩ := field_keeps
        (fun scope length tokens outside enough => ih outside enough) outside enough reading
      rw [outside, Bool.false_or, counts] at read
      rw [read] at silent
      rw [read, Field.allPruned, counts]
      have enough : behind.length < fuel := Nat.lt_of_le_of_lt shorter.length_le enough
      cases hides : t.hides with
      | true =>
        rw [hides] at silent
        obtain ⟨kept, kept_eq, part, rereads⟩ := ih outside enough silent
        rw [keepFields_hidden incomplete hides, behindField_eq first]
        exact ⟨kept, kept_eq,
          part.trans (shorter.sublist.trans (List.sublist_cons_self t rest)), rereads⟩
      | false =>
        rw [hides] at silent
        obtain ⟨own, own_eq, some_own, own_part, own_rereads⟩ := keeps hides
        obtain ⟨others, others_eq, part, rereads⟩ := ih outside enough silent
        refine ⟨own ++ others, keepFields_visible incomplete hides own_eq others_eq, ?_, ?_⟩
        · rw [List.append_assoc]
          exact (part.append_left own).trans own_part
        · refine rest_rereads more ?_ some_own own_rereads rereads
          rw [Field.isVisible_pruned, counts, hides]
          rfl

/-- The fields of a section of which `visible` visible ones have been read, read again from `kept`.
The section may have lost its containers. -/
def SectionRereads (scope : Scope) (wrapped : Bool) (visible : Nat) (kept : List Token)
    (fields : List Field) : Prop :=
  ∀ wrapped' fuel (scope' : Scope) kept', (wrapped' = false → wrapped = false) →
    scope.item = scope'.item → scope'.isHidden = false → Respelled kept kept' →
      kept'.length ≤ fuel →
        sectionFields wrapped' (fuel + 1) scope' visible ⟨kept', []⟩ = (fields, ⟨[], []⟩)

/-- A section is read again from its first field and the others. -/
theorem section_rereads {own others : List Token} {f : Field} {fields : List Field}
    {wrapped : Bool} {visible : Nat} (single : wrapped = false → visible + 1 ≠ 2)
    (counts : f.isVisible = true) (some_own : own ≠ [])
    (first : Rereads scope own readField (some f))
    (further : SectionRereads scope wrapped (visible + 1) others fields) :
    SectionRereads scope wrapped visible (own ++ others) (f :: fields) := by
  intro wrapped' fuel scope' kept' wraps item outside spelled enough
  obtain ⟨own', others', rfl, lengths, spelled_own, spelled_others⟩ := spelled.split
  have some_own' : 0 < own'.length := lengths ▸ List.length_pos_iff.mpr some_own
  have first := first fuel scope' own' others' item outside spelled_own enough
  rw [List.length_append] at enough
  obtain ⟨fuel, rfl⟩ : ∃ n, fuel = n + 1 := ⟨fuel - 1, by omega⟩
  have further := further wrapped' fuel scope' others' wraps item outside spelled_others (by omega)
  obtain ⟨t, rest, left⟩ := List.exists_cons_of_ne_nil
    (List.append_ne_nil_of_left_ne_nil (List.length_pos_iff.mp some_own') others')
  rw [sectionFields_succ, first, left]
  dsimp only
  rw [countsAsVisible, Option.map_some, Option.getD_some, counts, if_pos (by decide), if_neg ?_,
    further]
  · rfl
  · rintro ⟨-, unwrapped, two⟩
    exact single (wraps (by simpa using unwrapped)) two

/-- A section keeps what its visible fields keep. -/
theorem sectionFields_keeps {wrapped : Bool} (fuel : Nat) {visible : Nat}
    (outside : scope.isHidden = false) (enough : tokens.length < fuel)
    (silent : (sectionFields wrapped fuel scope visible ⟨tokens, []⟩).2.findings = []) :
    (keepFields fuel scope none tokens).1.Sublist tokens ∧
      SectionRereads scope wrapped visible (keepFields fuel scope none tokens).1
        (Field.allPruned (sectionFields wrapped fuel scope visible ⟨tokens, []⟩).1) := by
  induction fuel generalizing tokens visible with
  | zero => exact absurd enough (Nat.not_lt_zero _)
  | succ fuel ih =>
    rcases sectionFields_cases silent with
      ⟨rfl, read⟩ | ⟨f, t, rest, behind, rfl, shorter, first, reading, single, read⟩
    · rw [read]
      refine ⟨List.Sublist.refl _, fun wrapped' fuel' scope' kept' _ _ _ spelled _ => ?_⟩
      obtain rfl := spelled.nil
      rw [sectionFields_succ]
      rfl
    · have endless : (none : Option Nat) ≠ some 0 := by decide
      have enough := Nat.lt_of_succ_lt_succ enough
      obtain ⟨counts, keeps⟩ := field_keeps
        (fun scope length tokens outside enough => listFields_keeps fuel outside enough)
        outside enough reading
      rw [read, counts] at silent
      rw [read, Field.allPruned, counts]
      have enough : behind.length < fuel := Nat.lt_of_le_of_lt shorter.length_le enough
      cases hides : t.hides with
      | true =>
        rw [hides] at silent
        obtain ⟨part, rereads⟩ := ih enough silent
        rw [keepFields_hidden endless hides, behindField_eq first]
        exact ⟨part.trans (shorter.sublist.trans (List.sublist_cons_self t rest)), rereads⟩
      | false =>
        rw [hides] at silent counts
        obtain ⟨own, own_eq, some_own, own_part, own_rereads⟩ := keeps hides
        obtain ⟨part, rereads⟩ := ih enough silent
        rw [keepFields_visible endless hides own_eq rfl]
        refine ⟨((part.append_left own).trans own_part), ?_⟩
        refine section_rereads (single counts) ?_ some_own own_rereads rereads
        rw [Field.isVisible_pruned, counts]
        rfl

end Parse

theorem isWrapped_mono {kept tokens : List Token} (part : kept.Sublist tokens)
    (contained : isWrapped kept = false) : isWrapped tokens = false := by
  simp only [isWrapped, Bool.not_eq_false', List.any_eq_true] at contained ⊢
  obtain ⟨t, member, container⟩ := contained
  exact ⟨t, part.subset member, container⟩

theorem withoutHidden_sublist (tokens : List Token) (silent : (readFields tokens).2 = []) :
    (withoutHidden tokens).Sublist tokens :=
  (Parse.sectionFields_keeps _ rfl (Nat.lt_succ_self tokens.length) silent).1

/-- What is left of a section that can be compiled is a section that can be compiled, with the
fields that are left. -/
theorem readFields_withoutHidden {tokens tokens' : List Token} (silent : (readFields tokens).2 = [])
    (spelled : Respelled (withoutHidden tokens) tokens') :
    readFields tokens' = (Field.allPruned (readFields tokens).1, []) := by
  obtain ⟨part, rereads⟩ := Parse.sectionFields_keeps _ rfl (Nat.lt_succ_self tokens.length) silent
  have wraps : isWrapped tokens' = false → isWrapped tokens = false := by
    rw [← Token.isWrapped_of_texts spelled.1]
    exact isWrapped_mono part
  have read := rereads (isWrapped tokens') tokens'.length ⟨Token.stopOf tokens', none, false⟩
    tokens' wraps rfl rfl spelled (Nat.le_refl _)
  exact congrArg (fun read => (read.1, read.2.findings)) read

end Layout

end TagWire
