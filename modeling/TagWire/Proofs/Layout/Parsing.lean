import TagWire.Layout.Compile
import TagWire.Proofs.Layout.Heads
import TagWire.Proofs.Layout.Loops

/-!
# Fields of a section

What a section without faults holds: declared fields, and in each list as many visible ones as it
tells.

- `Parse.listFields_reads`, `Parse.sectionFields_reads`: the fields that are read where nothing is
  found.
- `compileSections_ok`: a grammar can be compiled if no section has a fault.
-/

namespace TagWire.Layout

/-- What is sure of fields that are read without a finding. -/
structure Reads (scope : Scope) (tokens : List Token) (fields : List Field) : Prop where
  declared : ∀ f ∈ fields, f.Declared (scope.item.map Prod.fst)
  hidden : scope.isHidden = true → ∀ f ∈ fields, f.isVisible = false
  plain : (∀ t ∈ tokens, t.isDirective = false) → scope.isHidden = false →
    ∀ f ∈ fields, f.isPlain = true

namespace Reads

variable {scope : Scope} {tokens rest : List Token} {fields others : List Field}

theorem none_read : Reads scope tokens [] where
  declared := by simp
  hidden := by simp
  plain := by simp

theorem single {f : Field} (declared : f.Declared (scope.item.map Prod.fst))
    (hidden : scope.isHidden = true → f.isVisible = false)
    (plain : (∀ t ∈ tokens, t.isDirective = false) → scope.isHidden = false → f.isPlain = true) :
    Reads scope tokens [f] where
  declared := List.forall_mem_singleton.mpr declared
  hidden scope_hidden := List.forall_mem_singleton.mpr (hidden scope_hidden)
  plain free visible := List.forall_mem_singleton.mpr (plain free visible)

theorem append (first : Reads scope tokens fields) (further : Reads scope rest others)
    (shorter : rest <:+ tokens) :
    Reads scope tokens (fields ++ others) where
  declared f member := (List.mem_append.mp member).elim (first.declared f) (further.declared f)
  hidden scope_hidden f member :=
    (List.mem_append.mp member).elim (first.hidden scope_hidden f) (further.hidden scope_hidden f)
  plain free visible f member := by
    have rest_free : ∀ t ∈ rest, t.isDirective = false := by
      intro t member
      exact free t (shorter.subset member)
    exact (List.mem_append.mp member).elim (first.plain free visible f)
      (further.plain rest_free visible f)

end Reads

namespace Parse

variable {scope : Scope}

/-- A field has what its head and the fields of its list are sure of. -/
theorem readField_reads {fuel : Nat} {t : Token} {rest behind : List Token} {f : Field}
    (inner : ∀ (scope : Scope) length tokens, tokens.length < fuel →
      (listFields fuel scope length 0 ⟨tokens, []⟩).2.findings = [] →
      Reads scope tokens (listFields fuel scope length 0 ⟨tokens, []⟩).1 ∧
        (scope.isHidden = false →
          (listFields fuel scope length 0 ⟨tokens, []⟩).1.countP Field.isVisible = length))
    (enough : rest.length < fuel) (reading : FieldRead fuel scope (t :: rest) f behind) :
    Reads scope (t :: rest) [f] := by
  cases reading with
  | whole head =>
    rcases Head.read_ok head with
      ⟨derivation, origin, ⟨⟩, t, member, directive⟩ | ⟨use, matched, hidden, plain⟩
    · refine .single (.derive derivation origin) (fun _ => rfl) fun free => ?_
      rw [free t member] at directive
      cases directive
    · cases f with
      | derive | group => exact matched.elim
      | data words payload =>
        obtain ⟨declared, rfl⟩ := matched
        refine .single declared (fun scope_hidden => ?_) fun free visible => ?_
        · simp [Field.isVisible, hidden scope_hidden]
        · simp [Field.isPlain, plain free visible]
  | @group isHidden words item length inside fields _ head shorter list =>
    rcases Head.read_ok head with ⟨_, _, ⟨⟩, _⟩ | ⟨use, ⟨rfl, rfl, bound⟩, hidden, plain⟩
    obtain ⟨reads, counted⟩ := inner { scope with item, isHidden := use.isHidden } length inside
      (Nat.lt_of_le_of_lt shorter.length_le enough) (by rw [list])
    rw [list] at reads counted
    refine .single ?_ (fun scope_hidden => ?_) fun free visible => ?_
    · cases use_hidden : use.isHidden with
      | true =>
        rw [Head.unlessHidden, if_pos use_hidden]
        exact .hiddenGroup reads.declared (reads.hidden use_hidden)
      | false =>
        obtain rfl := (counted use_hidden).symm
        rw [Head.unlessHidden, if_neg (by simp [use_hidden])]
        exact .group reads.declared bound
    · simp [Field.isVisible, hidden scope_hidden]
    · obtain rfl := plain free visible
      have within : inside <:+ t :: rest := shorter.trans (List.suffix_cons t rest)
      have inside_plain := reads.plain (fun t member => free t (within.subset member)) rfl
      simp only [Field.isPlain, Use.isHidden, Bool.not_false, Bool.true_and]
      exact Field.allPlain_iff.mpr inside_plain

/-- The fields of a list are read where nothing is found, and as many as the list tells. -/
theorem listFields_reads {fuel length found : Nat} {tokens : List Token}
    (enough : tokens.length < fuel)
    (silent : (listFields fuel scope length found ⟨tokens, []⟩).2.findings = []) :
    Reads scope tokens (listFields fuel scope length found ⟨tokens, []⟩).1 ∧
      (scope.isHidden = false → found ≤ length →
        (listFields fuel scope length found ⟨tokens, []⟩).1.countP Field.isVisible + found =
          length) := by
  induction fuel generalizing scope length found tokens with
  | zero => exact absurd enough (Nat.not_lt_zero _)
  | succ fuel ih =>
    rcases listFields_cases silent with
      ⟨complete, read⟩ | ⟨f, t, rest, behind, _, rfl, shorter, -, reading, read⟩
    · rw [read]
      refine ⟨.none_read, fun _ bound => ?_⟩
      rw [List.countP_nil]
      omega
    · rw [read] at silent ⊢
      have enough := Nat.lt_of_succ_lt_succ enough
      have first := readField_reads (fun scope length tokens enough silent => by
        -- a list begins with no field found
        obtain ⟨reads, counted⟩ := ih enough silent
        exact ⟨reads, fun outside => counted outside (Nat.zero_le _)⟩) enough reading
      obtain ⟨reads, counted⟩ := ih (Nat.lt_of_le_of_lt shorter.length_le enough) silent
      refine ⟨first.append reads (shorter.trans (List.suffix_cons t rest)), fun outside bound => ?_⟩
      have counted := counted outside
      rw [outside, Bool.false_or] at counted ⊢
      cases f_visible : f.isVisible with
      | true =>
        rw [f_visible, if_pos rfl] at counted
        rw [if_pos rfl, List.countP_cons_of_pos f_visible]
        omega
      | false =>
        rw [f_visible, if_neg (by decide)] at counted
        rw [if_neg (by decide), List.countP_cons_of_neg (by simp [f_visible])]
        exact counted bound

/-- The fields of a section are read where nothing is found, and one of them is visible unless the
section is a list of its own. -/
theorem sectionFields_reads {wrapped : Bool} {fuel visible : Nat} {tokens : List Token}
    (enough : tokens.length < fuel)
    (silent : (sectionFields wrapped fuel scope visible ⟨tokens, []⟩).2.findings = []) :
    Reads scope tokens (sectionFields wrapped fuel scope visible ⟨tokens, []⟩).1 ∧
      (wrapped = false → visible ≤ 1 →
        (sectionFields wrapped fuel scope visible ⟨tokens, []⟩).1.countP Field.isVisible + visible ≤
          1) := by
  induction fuel generalizing visible tokens with
  | zero => exact absurd enough (Nat.not_lt_zero _)
  | succ fuel ih =>
    rcases sectionFields_cases silent with
      ⟨rfl, read⟩ | ⟨f, t, rest, behind, rfl, shorter, -, reading, single, read⟩
    · rw [read]
      exact ⟨.none_read, fun _ bound => by simpa using bound⟩
    · rw [read] at silent ⊢
      have enough := Nat.lt_of_succ_lt_succ enough
      have first := readField_reads (fun scope length tokens enough silent => by
        obtain ⟨reads, counted⟩ := listFields_reads enough silent
        exact ⟨reads, fun outside => counted outside (Nat.zero_le _)⟩) enough reading
      obtain ⟨reads, counted⟩ := ih (Nat.lt_of_le_of_lt shorter.length_le enough) silent
      refine ⟨first.append reads (shorter.trans (List.suffix_cons t rest)),
        fun unwrapped bound => ?_⟩
      have counted := counted unwrapped
      cases f_visible : f.isVisible with
      | true =>
        have single := single f_visible unwrapped
        rw [f_visible, if_pos rfl] at counted
        rw [if_pos rfl, List.countP_cons_of_pos f_visible]
        omega
      | false =>
        rw [f_visible, if_neg (by decide)] at counted
        rw [if_neg (by decide), List.countP_cons_of_neg (by simp [f_visible])]
        exact counted bound

end Parse

theorem readFields_reads {tokens : List Token} (silent : (readFields tokens).2 = []) :
    Reads ⟨Token.stopOf tokens, none, false⟩ tokens (readFields tokens).1 ∧
      (isWrapped tokens = false → (readFields tokens).1.countP Field.isVisible ≤ 1) := by
  obtain ⟨reads, single⟩ := Parse.sectionFields_reads (Nat.lt_succ_self tokens.length) silent
  exact ⟨reads, fun unwrapped => single unwrapped (Nat.zero_le 1)⟩

theorem Finding.error?_eq_none {findings : List Finding} :
    Finding.error? findings = none ↔ findings = [] := by
  constructor
  · intro h
    unfold Finding.error? at h
    split at h
    · rename_i issues
      cases findings with
      | nil => rfl
      | cons finding rest =>
        cases finding with
        | fault position token what => simp [Finding.issue?] at issues
        | noConversion origin kind wire => simp [Finding.refusal?] at h
    · cases h
  · rintro rfl
    rfl

/-- A grammar can be compiled if nothing is found in any of its sections; each of them gives a
layout. -/
theorem compileSections_ok {grammar : String} {layouts : List Layout} :
    compileSections grammar = .ok layouts ↔
      (∀ tokens ∈ Token.sections (Token.scan grammar), (readFields tokens).2 = []) ∧
        layouts = (Token.sections (Token.scan grammar)).map fun tokens =>
          ofFields tokens (readFields tokens).1 := by
  unfold compileSections
  dsimp only
  split
  · rename_i failed
    have reported := Option.ne_none_iff_exists'.mpr ⟨_, failed⟩
    simp only [ne_eq, Finding.error?_eq_none, List.flatMap_eq_nil_iff,
      List.forall_mem_map] at reported
    simp [reported]
  · rename_i sound
    simp only [Finding.error?_eq_none, List.flatMap_eq_nil_iff, List.forall_mem_map] at sound
    simp only [List.map_map, Except.ok.injEq]
    exact ⟨fun made => ⟨sound, made.symm⟩, fun made => made.2.symm⟩

theorem compileSections_single {grammar : String} {tokens : List Token} {fields : List Field}
    (divided : Token.sections (Token.scan grammar) = [tokens])
    (read : readFields tokens = (fields, [])) :
    compileSections grammar = .ok [ofFields tokens fields] := by
  rw [compileSections_ok, divided]
  simp [read]

end TagWire.Layout
