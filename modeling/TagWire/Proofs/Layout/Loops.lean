import TagWire.Layout.Compile
import TagWire.Proofs.Layout.Steps

/-!
# Loops over fields

What one turn of a loop over the fields of a list or of a section does where nothing is found.

- `Parse.FieldRead`: how a field is read.
- `Parse.listFields_cases`, `Parse.sectionFields_cases`: the first field and the others.
-/

namespace TagWire.Layout.Parse

variable {scope : Scope} {p : Progress}

theorem run_bind {α β : Type} (m : Parse α) (f : α → Parse β) (p : Progress) :
    (m >>= f) p = f (m p).1 (m p).2 := rfl

/-- One field, with `fuel` for the lists in it. -/
def readField (fuel : Nat) (scope : Scope) : Parse (Option Field) :=
  field (fun scope length => listFields fuel scope length 0) scope

theorem readField_run (fuel : Nat) (scope : Scope) (p : Progress) :
    readField fuel scope p =
      match (Head.read scope).run p.rest with
      | (.error finding, rest) => (none, ⟨rest, p.findings ++ [finding]⟩)
      | (.ok (.whole f), rest) => (some f, { p with rest })
      | (.ok (.opening isHidden words item length), rest) =>
        (some (.group isHidden words
          (listFields fuel { scope with item, isHidden } length 0 { p with rest }).1),
          (listFields fuel { scope with item, isHidden } length 0 { p with rest }).2) := by
  rw [readField, field, run_bind, attempt]
  generalize (Head.read scope).run p.rest = answer
  obtain ⟨_ | _ | _, rest⟩ := answer <;> rfl

theorem listFields_succ (fuel : Nat) (scope : Scope) (length found : Nat) (p : Progress) :
    listFields (fuel + 1) scope length found p =
      if length ≤ found then ([], p)
      else if p.rest = [] then
        let tooShort : Finding := .fault scope.stop "" (.listTooShort length found)
        ([], { p with findings := p.findings ++ [tooShort] })
      else
        let first := readField fuel scope p
        let others := listFields fuel scope length
          (if scope.isHidden ∨ countsAsVisible first.1 then found + 1 else found) first.2
        (first.1.toList ++ others.1, others.2) := by
  rw [listFields]
  split
  · rfl
  · rw [run_bind]
    change (if p.rest = [] then _ else _ : Parse (List Field)) p = _
    split <;> rfl

theorem sectionFields_succ (wrapped : Bool) (fuel : Nat) (scope : Scope) (visible : Nat)
    (p : Progress) :
    sectionFields wrapped (fuel + 1) scope visible p =
      match p.rest with
      | [] => ([], p)
      | t :: _ =>
        let first := readField fuel scope p
        let visible := if countsAsVisible first.1 then visible + 1 else visible
        let others := sectionFields wrapped fuel scope visible
          (if countsAsVisible first.1 ∧ !wrapped ∧ visible = 2 then
            { first.2 with findings := first.2.findings ++ [t.fault .secondMessage] }
          else first.2)
        (first.1.toList ++ others.1, others.2) := by
  rw [sectionFields, run_bind]
  change (match p.rest with | [] => _ | t :: _ => _ : Parse (List Field)) p = _
  cases p.rest with
  | nil => rfl
  | cons t rest =>
    dsimp only
    rw [run_bind, ← readField]
    generalize readField fuel scope p = result
    obtain ⟨first, p⟩ := result
    dsimp only
    generalize (if countsAsVisible first then visible + 1 else visible) = visible
    by_cases second : countsAsVisible first ∧ !wrapped ∧ visible = 2
    · rw [if_pos second, if_pos second]
      rfl
    · rw [if_neg second, if_neg second]
      rfl

/-! ## Tokens are taken and findings are kept -/

theorem readField_shrinks {fuel : Nat} (scope : Scope)
    (inner : ∀ scope length p, (listFields fuel scope length 0 p).2.rest <:+ p.rest)
    (some_left : p.rest ≠ []) :
    ∃ first rest, p.rest = first :: rest ∧ (readField fuel scope p).2.rest <:+ rest := by
  obtain ⟨first, rest, split, shorter⟩ := Head.read_shorter scope some_left
  refine ⟨first, rest, split, ?_⟩
  rw [readField_run]
  generalize (Head.read scope).run p.rest = answer at shorter ⊢
  obtain ⟨_ | _ | ⟨isHidden, words, item, length⟩, mid⟩ := answer
  · exact shorter
  · exact shorter
  · exact (inner { scope with item, isHidden } length { p with rest := mid }).trans shorter

theorem listFields_shrinks (fuel : Nat) (scope : Scope) (length found : Nat) (p : Progress) :
    (listFields fuel scope length found p).2.rest <:+ p.rest := by
  induction fuel generalizing scope length found p with
  | zero => exact List.suffix_refl _
  | succ fuel ih =>
    rw [listFields_succ]
    split
    · exact List.suffix_refl _
    · split
      · exact List.suffix_refl _
      · rename_i some_left
        obtain ⟨first, rest, split, shorter⟩ :=
          readField_shrinks scope (fun scope length p => ih scope length 0 p) some_left
        exact (ih ..).trans (split ▸ shorter.trans (List.suffix_cons first rest))

theorem readField_grows {fuel : Nat} (scope : Scope)
    (inner : ∀ scope length p, p.findings <+: (listFields fuel scope length 0 p).2.findings)
    (p : Progress) : p.findings <+: (readField fuel scope p).2.findings := by
  rw [readField_run]
  generalize (Head.read scope).run p.rest = answer
  obtain ⟨finding | _ | ⟨isHidden, words, item, length⟩, mid⟩ := answer
  · exact List.prefix_append p.findings [finding]
  · exact List.prefix_refl _
  · exact inner { scope with item, isHidden } length { p with rest := mid }

theorem listFields_grows (fuel : Nat) (scope : Scope) (length found : Nat) (p : Progress) :
    p.findings <+: (listFields fuel scope length found p).2.findings := by
  induction fuel generalizing scope length found p with
  | zero => exact List.prefix_refl _
  | succ fuel ih =>
    rw [listFields_succ]
    split
    · exact List.prefix_refl _
    · split
      · exact List.prefix_append ..
      · exact (readField_grows scope (fun scope length p => ih scope length 0 p) p).trans (ih ..)

/-- A finding may be added between two fields. -/
theorem found_grows (found : Prop) [Decidable found] (finding : Finding) :
    p.findings <+:
      (if found then { p with findings := p.findings ++ [finding] } else p).findings := by
  split
  · exact List.prefix_append p.findings [finding]
  · exact List.prefix_refl _

theorem sectionFields_grows (wrapped : Bool) (fuel : Nat) (scope : Scope) (visible : Nat)
    (p : Progress) : p.findings <+: (sectionFields wrapped fuel scope visible p).2.findings := by
  induction fuel generalizing visible p with
  | zero => exact List.prefix_refl _
  | succ fuel ih =>
    have first :=
      readField_grows scope (fun scope length p => listFields_grows fuel scope length 0 p) p
    rw [sectionFields_succ]
    cases p.rest with
    | nil => exact List.prefix_refl _
    | cons t rest => exact first.trans ((found_grows _ (t.fault .secondMessage)).trans (ih ..))

/-! ## Turns without findings -/

theorem silent_before {findings later : List Finding} (grows : findings <+: later)
    (silent : later = []) : findings = [] :=
  List.prefix_nil.mp (silent ▸ grows)

theorem not_found {found : Prop} [Decidable found] {finding : Finding}
    (silent : (if found then { p with findings := p.findings ++ [finding] } else p).findings = []) :
    ¬ found ∧ p.findings = [] := by
  split at silent
  · simp at silent
  · rename_i nothing
    exact ⟨nothing, silent⟩

/-- How a field is read without a finding: as one head, or as a list behind one. -/
inductive FieldRead (fuel : Nat) (scope : Scope) (tokens : List Token) : Field → List Token → Prop
  | whole {f behind} (head : (Head.read scope).run tokens = (.ok (.whole f), behind)) :
    FieldRead fuel scope tokens f behind
  | group {isHidden words item length inside fields behind}
    (head : (Head.read scope).run tokens = (.ok (.opening isHidden words item length), inside))
    (shorter : inside <:+ tokens.tail)
    (list : listFields fuel { scope with item, isHidden } length 0 ⟨inside, []⟩ =
      (fields, ⟨behind, []⟩)) : FieldRead fuel scope tokens (.group isHidden words fields) behind

theorem readField_cases {fuel : Nat} {tokens : List Token} (some_left : tokens ≠ [])
    (silent : (readField fuel scope ⟨tokens, []⟩).2.findings = []) :
    ∃ f t rest behind, tokens = t :: rest ∧ behind <:+ rest ∧
      readField fuel scope ⟨tokens, []⟩ = (some f, ⟨behind, []⟩) ∧
      FieldRead fuel scope tokens f behind := by
  obtain ⟨t, rest, rfl, head_shorter⟩ := Head.read_shorter scope some_left
  rw [readField_run] at silent ⊢
  dsimp only at silent ⊢
  generalize head : (Head.read scope).run (t :: rest) = answer at head_shorter silent ⊢
  obtain ⟨finding | f | ⟨isHidden, words, item, length⟩, mid⟩ := answer
  · simp at silent
  · exact ⟨f, t, rest, mid, rfl, head_shorter, rfl, .whole head⟩
  · have shorter := listFields_shrinks fuel { scope with item, isHidden } length 0 ⟨mid, []⟩
    dsimp only at silent ⊢
    generalize list : listFields fuel { scope with item, isHidden } length 0 ⟨mid, []⟩ = result
      at silent shorter ⊢
    obtain ⟨fields, behind, _⟩ := result
    obtain rfl := silent
    exact ⟨_, t, rest, behind, rfl, shorter.trans head_shorter, rfl,
      .group head head_shorter list⟩

/-- A list that is read without a finding is complete, or goes on with a field. -/
theorem listFields_cases {fuel length found : Nat} {tokens : List Token}
    (silent : (listFields (fuel + 1) scope length found ⟨tokens, []⟩).2.findings = []) :
    (length ≤ found ∧
      listFields (fuel + 1) scope length found ⟨tokens, []⟩ = ([], ⟨tokens, []⟩)) ∨
    ∃ f t rest behind, found < length ∧ tokens = t :: rest ∧ behind <:+ rest ∧
      readField fuel scope ⟨tokens, []⟩ = (some f, ⟨behind, []⟩) ∧
      FieldRead fuel scope tokens f behind ∧
      let others := listFields fuel scope length
        (if scope.isHidden || f.isVisible then found + 1 else found) ⟨behind, []⟩
      listFields (fuel + 1) scope length found ⟨tokens, []⟩ = (f :: others.1, others.2) := by
  rw [listFields_succ] at silent ⊢
  by_cases complete : length ≤ found
  · exact .inl ⟨complete, if_pos complete⟩
  · rw [if_neg complete] at silent ⊢
    cases tokens with
    | nil => simp at silent
    | cons t rest =>
      rw [if_neg (List.cons_ne_nil t rest)] at silent ⊢
      obtain ⟨f, _, _, behind, ⟨⟩, shorter, first, reading⟩ :=
        readField_cases (List.cons_ne_nil t rest) (silent_before (listFields_grows ..) silent)
      refine .inr ⟨f, t, rest, behind, Nat.lt_of_not_le complete, rfl, shorter, first, reading, ?_⟩
      rw [first]
      simp only [countsAsVisible, Option.map_some, Option.getD_some, Bool.or_eq_true]
      rfl

/-- A section that is read without a finding is at its end, or goes on with a field. Outside a list
of its own this is the only visible one. -/
theorem sectionFields_cases {wrapped : Bool} {fuel visible : Nat} {tokens : List Token}
    (silent : (sectionFields wrapped (fuel + 1) scope visible ⟨tokens, []⟩).2.findings = []) :
    (tokens = [] ∧ sectionFields wrapped (fuel + 1) scope visible ⟨tokens, []⟩ = ([], ⟨[], []⟩)) ∨
    ∃ f t rest behind, tokens = t :: rest ∧ behind <:+ rest ∧
      readField fuel scope ⟨tokens, []⟩ = (some f, ⟨behind, []⟩) ∧
      FieldRead fuel scope tokens f behind ∧
      (f.isVisible = true → wrapped = false → visible + 1 ≠ 2) ∧
      let others := sectionFields wrapped fuel scope (if f.isVisible then visible + 1 else visible)
        ⟨behind, []⟩
      sectionFields wrapped (fuel + 1) scope visible ⟨tokens, []⟩ = (f :: others.1, others.2) := by
  rw [sectionFields_succ] at silent ⊢
  cases tokens with
  | nil => exact .inl ⟨rfl, rfl⟩
  | cons t rest =>
    dsimp only at silent ⊢
    obtain ⟨single, before⟩ := not_found (silent_before (sectionFields_grows ..) silent)
    obtain ⟨f, _, _, behind, ⟨⟩, shorter, first, reading⟩ :=
      readField_cases (List.cons_ne_nil t rest) before
    rw [if_neg single]
    rw [first] at single
    refine .inr ⟨f, t, rest, behind, rfl, shorter, first, reading,
      fun counts unwrapped two => single ?_, ?_⟩
    · rw [countsAsVisible, Option.map_some, Option.getD_some, counts, unwrapped]
      exact ⟨rfl, rfl, two⟩
    · rw [first]
      rfl

end TagWire.Layout.Parse
