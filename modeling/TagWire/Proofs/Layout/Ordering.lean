import Mathlib.Data.List.Forall2
import TagWire.Proofs.Layout.Loops
import TagWire.Proofs.Layout.Offsets
import TagWire.Proofs.Layout.Parallel

/-!
# The order of issues

Issues are recorded in the order of the grammar, and each names the text that stands in its place.
One issue of a section may come late: a second message is recorded behind what is found inside of it.

- `Ordered`: issues in order between two places.
- `Parse.Turn`: what is found between two places of a section.
- `Late`: issues as they are recorded, and in order.
- `compileSections_refused`: the issues of a grammar.
-/

namespace TagWire.Layout

open Token (Apart Laid place scan sections section_apart sections_apart stopOf)

/-! ## Issues of a section -/

/-- Issues in order from one place to another. -/
inductive Ordered : Nat → List Issue → Nat → Prop
  | none {lo hi} (onward : lo ≤ hi) : Ordered lo [] hi
  | cons {lo hi issue rest} (onward : lo ≤ issue.position) (behind : Ordered issue.position rest hi) :
    Ordered lo (issue :: rest) hi

namespace Ordered

variable {lo lo' mid hi : Nat} {issue : Issue} {issues others : List Issue}

theorem earlier (ordered : Ordered lo issues hi) (before : lo' ≤ lo) : Ordered lo' issues hi := by
  cases ordered with
  | none onward => exact .none (Nat.le_trans before onward)
  | cons onward behind => exact .cons (Nat.le_trans before onward) behind

theorem single (start : lo ≤ issue.position) (stop : issue.position ≤ hi) :
    Ordered lo [issue] hi :=
  .cons start (.none stop)

theorem append (ordered : Ordered lo issues mid) (further : Ordered mid others hi) :
    Ordered lo (issues ++ others) hi := by
  induction ordered with
  | none onward => exact further.earlier onward
  | cons onward _ ih => exact .cons onward (ih further)

theorem later (ordered : Ordered lo issues hi) : ∀ issue ∈ issues, lo ≤ issue.position := by
  induction ordered with
  | none => simp
  | cons onward _ ih =>
    exact List.forall_mem_cons.mpr
      ⟨onward, fun issue member => Nat.le_trans onward (ih issue member)⟩

theorem pairwise (ordered : Ordered lo issues hi) :
    issues.Pairwise fun i j => i.position ≤ j.position := by
  induction ordered with
  | none => exact .nil
  | cons _ behind ih => exact List.pairwise_cons.mpr ⟨behind.later, ih⟩

end Ordered

/-- The issues among findings. -/
def Finding.issues (findings : List Finding) : List Issue := findings.filterMap Finding.issue?

theorem Finding.issues_append (findings others : List Finding) :
    issues (findings ++ others) = issues findings ++ issues others :=
  List.filterMap_append

/-- The issue is about a token, or about the end. -/
def Sited (stop : Nat) (tokens : List Token) (issue : Issue) : Prop :=
  (∃ t ∈ tokens, issue.position = t.start ∧ issue.token = t.text) ∨
    issue.position = stop ∧ issue.token = ""

theorem Sited.mono {stop : Nat} {tokens rest : List Token} {issue : Issue}
    (sited : Sited stop rest issue) (part : rest <:+ tokens) : Sited stop tokens issue := by
  obtain ⟨t, member, same⟩ | ended := sited
  · exact .inl ⟨t, part.subset member, same⟩
  · exact .inr ended

theorem Head.read_suffix (scope : Scope) (tokens : List Token) :
    ((Head.read scope).run tokens).2 <:+ tokens := by
  obtain ⟨p, r, -, -, left, -, -⟩ := (Parallel.alone scope tokens).mirrors_read
  have left : (Head.read scope).run tokens = (r, tokens.drop p) := left
  rw [left]
  exact List.drop_suffix p tokens

namespace Parse

variable {stop : Nat} {scope : Scope} {p p' p'' : Progress} {new later : List Finding}

/-- What is found between two places of a section: in order, and about what stands there. -/
structure Turn (stop : Nat) (p p' : Progress) (new : List Finding) : Prop where
  rest : p'.rest <:+ p.rest
  findings : p'.findings = p.findings ++ new
  ordered : Ordered (place stop p.rest) (Finding.issues new) (place stop p'.rest)
  sited : ∀ issue ∈ Finding.issues new, Sited stop p.rest issue

namespace Turn

theorem stay (p : Progress) : Turn stop p p [] where
  rest := List.suffix_refl _
  findings := (List.append_nil _).symm
  ordered := .none (Nat.le_refl _)
  sited := by simp [Finding.issues]

theorem trans (first : Turn stop p p' new) (further : Turn stop p' p'' later) :
    Turn stop p p'' (new ++ later) where
  rest := further.rest.trans first.rest
  findings := by rw [further.findings, first.findings, List.append_assoc]
  ordered := by
    rw [Finding.issues_append]
    exact first.ordered.append further.ordered
  sited := by
    rw [Finding.issues_append]
    exact List.forall_mem_append.mpr
      ⟨first.sited, fun issue member => (further.sited issue member).mono first.rest⟩

/-- Tokens are taken without a finding. -/
theorem onward (laid : Laid stop p.rest) {rest : List Token} (shorter : rest <:+ p.rest) :
    Turn stop p { p with rest } [] where
  rest := shorter
  findings := (List.append_nil _).symm
  ordered := .none (laid.place_le shorter)
  sited := by simp [Finding.issues]

/-- An end that comes too soon. -/
theorem ended (nothing : p.rest = []) (what : Fault) :
    Turn stop p { p with findings := p.findings ++ [.fault stop "" what] }
      [.fault stop "" what] where
  rest := List.suffix_refl _
  findings := rfl
  ordered := by
    rw [nothing]
    exact .single (Nat.le_refl _) (Nat.le_refl _)
  sited := List.forall_mem_singleton.mpr (.inr ⟨rfl, rfl⟩)

/-- A head that is faulty. -/
theorem faulty {tokens rest : List Token} {findings : List Finding} {finding : Finding}
    (laid : Laid scope.stop tokens)
    (read : (Head.read scope).run tokens = (.error finding, rest)) :
    Turn scope.stop ⟨tokens, findings⟩ ⟨rest, findings ++ [finding]⟩ [finding] := by
  obtain ⟨q, _, rfl, found⟩ := Head.read_finding read
  have shorter : tokens.drop q <:+ tokens := List.drop_suffix q tokens
  refine ⟨shorter, rfl, ?_, ?_⟩
  · cases found with
    | @token i t t' reached left right what =>
      have left : tokens[i]? = some t := left
      have here : place scope.stop (tokens.drop i) = t.start := by
        simp [place, List.head?_drop, left]
      have front := laid.place_le (List.drop_suffix i tokens)
      have back := (laid.suffix (List.drop_suffix i tokens)).place_le
        (List.drop_suffix_drop_left tokens reached)
      rw [here] at front back
      exact .single front back
    | ended nothing what =>
      have nothing : tokens.drop q = [] := nothing
      dsimp only
      rw [nothing]
      exact .single laid.place_le_stop (Nat.le_refl _)
    | refused => exact .none (laid.place_le shorter)
  · cases found with
    | token reached left right what =>
      exact List.forall_mem_singleton.mpr (.inl ⟨_, List.mem_of_getElem? left, rfl, rfl⟩)
    | ended nothing what => exact List.forall_mem_singleton.mpr (.inr ⟨rfl, rfl⟩)
    | refused => exact fun issue member => absurd member List.not_mem_nil

end Turn

theorem readField_turns (fuel : Nat) {scope : Scope} {p : Progress}
    (inner : ∀ (scope' : Scope) length p, scope'.stop = scope.stop → Laid scope.stop p.rest →
      ∃ new, Turn scope.stop p (listFields fuel scope' length 0 p).2 new)
    (laid : Laid scope.stop p.rest) : ∃ new, Turn scope.stop p (readField fuel scope p).2 new := by
  have shorter := Head.read_suffix scope p.rest
  rw [readField_run]
  cases read : (Head.read scope).run p.rest with
  | mk answer rest =>
    rw [read] at shorter
    cases answer with
    | error finding => exact ⟨_, .faulty laid read⟩
    | ok head =>
      have first : Turn scope.stop p { p with rest } [] := .onward laid shorter
      cases head with
      | whole f => exact ⟨_, first⟩
      | opening isHidden words item length =>
        obtain ⟨new, behind⟩ := inner { scope with item, isHidden } length { p with rest } rfl
          (laid.suffix shorter)
        exact ⟨_, first.trans behind⟩

theorem listFields_turns (fuel : Nat) {scope : Scope} (length found : Nat) {p : Progress}
    (laid : Laid scope.stop p.rest) :
    ∃ new, Turn scope.stop p (listFields fuel scope length found p).2 new := by
  induction fuel generalizing scope length found p with
  | zero => exact ⟨_, .stay p⟩
  | succ fuel ih =>
    rw [listFields_succ]
    split
    · exact ⟨_, .stay p⟩
    · split
      · rename_i nothing
        exact ⟨_, .ended nothing _⟩
      · obtain ⟨new, first⟩ := readField_turns fuel
          (fun scope' length p same laid => same ▸ ih length 0 (same ▸ laid)) laid
        obtain ⟨later, others⟩ := ih length _ (laid.suffix first.rest)
        exact ⟨_, first.trans others⟩

end Parse

/-- Issues of a section as they are recorded, and in order. A second message is recorded behind what
is found inside of it. -/
inductive Late : List Issue → List Issue → Prop
  | never (issues : List Issue) : Late issues issues
  | once {report : Issue} (second : report.message = Fault.secondMessage.message)
    (before inside behind : List Issue) :
    Late (before ++ (inside ++ report :: behind)) (before ++ (report :: (inside ++ behind)))

namespace Late

variable {found ordered : List Issue}

theorem perm (late : Late found ordered) : found.Perm ordered := by
  cases late with
  | never => exact .refl _
  | once second before inside behind => exact .append_left before List.perm_middle

theorem behind (late : Late found ordered) (issues : List Issue) :
    Late (issues ++ found) (issues ++ ordered) := by
  cases late with
  | never => exact .never _
  | once second before inside behind =>
    have late := Late.once second (issues ++ before) inside behind
    simpa only [List.append_assoc] using late

/-- Without a second message nothing comes late. -/
theorem eq_of_single (late : Late found ordered)
    (single : ∀ issue ∈ found, issue.message ≠ Fault.secondMessage.message) : found = ordered := by
  cases late with
  | never => rfl
  | once second => exact absurd second (single _ (by simp))

end Late

/-- What is recorded of a section from some tokens on. -/
structure Recorded (stop : Nat) (tokens : List Token) (found ordered : List Issue) : Prop where
  late : Late found ordered
  inOrder : Ordered (place stop tokens) ordered stop
  sited : ∀ issue ∈ found, Sited stop tokens issue

namespace Recorded

variable {stop : Nat} {tokens : List Token} {p p' : Progress} {new later : List Finding}
  {ordered : List Issue}

theorem nothing (laid : Laid stop tokens) : Recorded stop tokens [] [] where
  late := .never []
  inOrder := .none laid.place_le_stop
  sited := by simp

theorem behind (first : Parse.Turn stop p p' new)
    (recorded : Recorded stop p'.rest (Finding.issues later) ordered) :
    Recorded stop p.rest (Finding.issues (new ++ later)) (Finding.issues new ++ ordered) := by
  rw [Finding.issues_append]
  refine ⟨recorded.late.behind _, first.ordered.append recorded.inOrder, ?_⟩
  exact List.forall_mem_append.mpr
    ⟨first.sited, fun issue member => (recorded.sited issue member).mono first.rest⟩

/-- A second message, with nothing behind it that comes late. -/
theorem second {t : Token} {rest : List Token} (left : p.rest = t :: rest)
    (first : Parse.Turn stop p p' new)
    (recorded : Recorded stop p'.rest (Finding.issues later) (Finding.issues later)) :
    Recorded stop p.rest (Finding.issues (new ++ t.fault .secondMessage :: later))
      (⟨t.start, t.text, Fault.secondMessage.message⟩ ::
        (Finding.issues new ++ Finding.issues later)) := by
  have here : place stop p.rest = t.start := by simp [place, left]
  have both := behind first recorded
  rw [Finding.issues_append] at both ⊢
  obtain ⟨inside, after⟩ := List.forall_mem_append.mp both.sited
  have report : Sited stop p.rest ⟨t.start, t.text, Fault.secondMessage.message⟩ :=
    .inl ⟨t, by simp [left], rfl, rfl⟩
  refine ⟨.once rfl [] _ _, .cons (Nat.le_of_eq here) (here ▸ both.inOrder), ?_⟩
  exact List.forall_mem_append.mpr ⟨inside, List.forall_mem_cons.mpr ⟨report, after⟩⟩

end Recorded

/-- Of the issues of a section, one comes late at most, and none behind a second message. -/
theorem Parse.sectionFields_recorded (wrapped : Bool) (fuel : Nat) (scope : Scope) (visible : Nat)
    {p : Progress} (laid : Laid scope.stop p.rest) :
    ∃ new ordered,
      (sectionFields wrapped fuel scope visible p).2.findings = p.findings ++ new ∧
        Recorded scope.stop p.rest (Finding.issues new) ordered ∧
        (2 ≤ visible → Finding.issues new = ordered) := by
  have silent (visible : Nat) (p : Progress) (laid : Laid scope.stop p.rest) : ∃ new ordered,
      p.findings = p.findings ++ new ∧
        Recorded scope.stop p.rest (Finding.issues new) ordered ∧
        (2 ≤ visible → Finding.issues new = ordered) :=
    ⟨[], [], (List.append_nil _).symm, .nothing laid, fun _ => rfl⟩
  induction fuel generalizing visible p with
  | zero => exact silent visible p laid
  | succ fuel ih =>
    obtain ⟨tokens, findings⟩ := p
    rw [sectionFields_succ]
    cases tokens with
    | nil => exact silent visible _ laid
    | cons t rest =>
      obtain ⟨new, first⟩ := readField_turns fuel
        (fun scope' length p same laid => same ▸ listFields_turns fuel length 0 (same ▸ laid)) laid
      have inside := laid.suffix first.rest
      dsimp only
      generalize readField fuel scope ⟨t :: rest, findings⟩ = result at first inside ⊢
      obtain ⟨f, p'⟩ := result
      generalize seen_eq : (if countsAsVisible f then visible + 1 else visible) = seen
      -- the report goes before what is found in the field; from then on two have been seen
      by_cases second : countsAsVisible f ∧ !wrapped ∧ seen = 2
      · rw [if_pos second]
        obtain ⟨later, ordered, grown, recorded, settled⟩ := ih seen
          (p := { p' with findings := p'.findings ++ [t.fault .secondMessage] }) inside
        obtain rfl := settled (Nat.le_of_eq second.2.2.symm)
        have before : p'.findings = findings ++ new := first.findings
        refine ⟨_, _, ?_, .second rfl first recorded, ?_⟩
        · exact grown.trans (by simp [before])
        · intro two
          obtain ⟨counts, -, rfl⟩ := second
          rw [if_pos counts] at seen_eq
          omega
      · rw [if_neg second]
        obtain ⟨later, ordered, grown, recorded, settled⟩ := ih seen inside
        refine ⟨_, _, ?_, .behind first recorded, fun two => ?_⟩
        · rw [grown, first.findings, List.append_assoc]
        · have more : 2 ≤ seen := by
            subst seen_eq
            split <;> omega
          rw [Finding.issues_append, settled more]

/-- The issues of a section, as they are recorded. -/
def sectionIssues (tokens : List Token) : List Issue := Finding.issues (readFields tokens).2

theorem sectionIssues_recorded {tokens : List Token} (apart : Apart tokens) :
    ∃ ordered, Recorded (stopOf tokens) tokens (sectionIssues tokens) ordered := by
  obtain ⟨new, ordered, grown, recorded, -⟩ :=
    Parse.sectionFields_recorded (isWrapped tokens) (tokens.length + 1)
      ⟨stopOf tokens, none, false⟩ 0 (p := ⟨tokens, []⟩) (Token.laid_of_apart apart)
  have findings : (readFields tokens).2 = new := grown
  refine ⟨ordered, ?_⟩
  rw [sectionIssues, findings]
  exact recorded

/-- The issue is about the token, or about what is missing behind it. -/
def Token.Blamed (t : Token) (issue : Issue) : Prop :=
  issue.position = t.start ∧ issue.token = t.text ∨ issue.position = t.stop ∧ issue.token = ""

namespace Token.Blamed

variable {t u : Token} {issue other : Issue}

theorem start_le (blamed : t.Blamed issue) : t.start ≤ issue.position := by
  obtain ⟨place, -⟩ | ⟨place, -⟩ := blamed
  · exact Nat.le_of_eq place.symm
  · exact place ▸ t.start_le_stop

theorem le_stop (blamed : t.Blamed issue) : issue.position ≤ t.stop := by
  obtain ⟨place, -⟩ | ⟨place, -⟩ := blamed
  · exact place ▸ t.start_le_stop
  · exact Nat.le_of_eq place

theorem before (blamed : t.Blamed issue) (blamed' : u.Blamed other) (apart : t.stop ≤ u.start) :
    issue.position ≤ other.position :=
  Nat.le_trans blamed.le_stop (Nat.le_trans apart blamed'.start_le)

theorem stands {grammar : String} (blamed : t.Blamed issue) (member : t ∈ scan grammar) :
    Stands grammar issue.position issue.token := by
  have word := stands_scan member
  obtain ⟨place, token⟩ | ⟨place, token⟩ := blamed
  · rwa [place, token]
  · rw [place, token]
    exact stands_stop word

end Token.Blamed

/-- An issue of a section is about one of its tokens. -/
theorem sectionIssues_blamed {tokens : List Token} {issue : Issue} (apart : Apart tokens)
    (member : issue ∈ sectionIssues tokens) : ∃ t ∈ tokens, t.Blamed issue := by
  obtain ⟨ordered, recorded⟩ := sectionIssues_recorded apart
  obtain ⟨t, inside, about⟩ | ended := recorded.sited issue member
  · exact ⟨t, inside, .inl about⟩
  · -- a section without tokens has no end to miss anything at
    obtain rfl | ⟨front, last, rfl⟩ := List.eq_nil_or_concat' tokens
    · cases member
    · rw [Token.stopOf_concat] at ended
      exact ⟨last, by simp, .inr ended⟩

/-! ## Issues of a grammar -/

theorem Finding.error?_grammar {findings : List Finding} {issues : List Issue} :
    Finding.error? findings = some (.grammar issues) ↔
      issues = Finding.issues findings ∧ issues ≠ [] := by
  unfold Finding.error? Finding.issues
  split
  · rename_i none_found
    constructor
    · intro reported
      obtain ⟨finding, -, refused⟩ := List.mem_filterMap.mp (List.mem_of_mem_head? reported)
      cases finding <;> cases refused
    · rintro ⟨rfl, some_found⟩
      exact absurd none_found some_found
  · rename_i some_found
    simp only [Option.some.injEq, Error.grammar.injEq]
    constructor
    · rintro rfl
      exact ⟨rfl, some_found⟩
    · rintro ⟨same, -⟩
      exact same.symm

/-- A grammar has the issues of its sections. -/
theorem compileSections_issues {grammar : String} {issues : List Issue} :
    compileSections grammar = .error (.grammar issues) ↔
      issues = ((sections (scan grammar)).map sectionIssues).flatten ∧ issues ≠ [] := by
  have whole : ((sections (scan grammar)).map sectionIssues).flatten =
      Finding.issues ((sections (scan grammar)).flatMap fun tokens =>
        (readFields tokens).2) := by
    rw [Finding.issues, List.filterMap_flatMap]
    rfl
  rw [whole, ← Finding.error?_grammar]
  unfold compileSections
  simp only [List.flatMap_map]
  split
  · rename_i error reported
    simp [reported]
  · rename_i silent
    simp [silent]

section
variable {grammar : String} {tokens : List Token}

/-- The issues of each section can be put in order, and then those of all sections are. -/
theorem exists_inOrder (grammar : String) : ∃ ordered : List Token → List Issue,
    (∀ tokens ∈ sections (scan grammar), Late (sectionIssues tokens) (ordered tokens)) ∧
      ((sections (scan grammar)).map ordered).flatten.Pairwise
        fun i j => i.position ≤ j.position := by
  have sorted (tokens : List Token) : ∃ ordered, tokens ∈ sections (scan grammar) →
      Recorded (stopOf tokens) tokens (sectionIssues tokens) ordered := by
    by_cases member : tokens ∈ sections (scan grammar)
    · obtain ⟨ordered, recorded⟩ := sectionIssues_recorded (section_apart member)
      exact ⟨ordered, fun _ => recorded⟩
    · exact ⟨[], fun held => absurd held member⟩
  -- the same order is taken for sections with the same tokens, such as empty ones
  choose ordered recorded using sorted
  have blamed {tokens : List Token} (member : tokens ∈ sections (scan grammar)) :
      ∀ issue ∈ ordered tokens, ∃ t ∈ tokens, t.Blamed issue := by
    intro issue found
    exact sectionIssues_blamed (section_apart member)
      ((recorded tokens member).late.perm.mem_iff.mpr found)
  refine ⟨ordered, fun tokens member => (recorded tokens member).late, ?_⟩
  rw [List.pairwise_flatten, List.forall_mem_map, List.pairwise_map]
  refine ⟨fun tokens member => (recorded tokens member).inOrder.pairwise, ?_⟩
  have between := (List.pairwise_flatten.mp (sections_apart grammar)).2
  refine between.imp_of_mem fun {tokens others} member member' apart issue found other found' => ?_
  obtain ⟨t, t_member, about⟩ := blamed member issue found
  obtain ⟨u, u_member, about'⟩ := blamed member' other found'
  exact about.before about' (apart t t_member u u_member)

theorem sectionIssues_stand (member : tokens ∈ sections (scan grammar)) {issue : Issue}
    (found : issue ∈ sectionIssues tokens) : Stands grammar issue.position issue.token := by
  obtain ⟨t, t_member, blamed⟩ := sectionIssues_blamed (section_apart member) found
  have inside : t ∈ (sections (scan grammar)).flatten :=
    List.mem_flatten.mpr ⟨tokens, member, t_member⟩
  exact blamed.stands ((Token.sections_sublist _).subset inside)

end

/-- The issues of a grammar are those of its sections, section by section. In each section they come
in the order of the grammar, but for a second message, which may come behind what is found inside of
it. Each names the text that stands in its place. -/
theorem compileSections_refused {grammar : String} {issues : List Issue}
    (refused : compileSections grammar = .error (.grammar issues)) :
    issues = ((sections (scan grammar)).map sectionIssues).flatten ∧
      (∃ ordered, List.Forall₂ Late ((sections (scan grammar)).map sectionIssues) ordered ∧
        ordered.flatten.Pairwise fun i j => i.position ≤ j.position) ∧
      ((∀ issue ∈ issues, issue.message ≠ Fault.secondMessage.message) →
        issues.Pairwise fun i j => i.position ≤ j.position) ∧
      ∀ issue ∈ issues, Stands grammar issue.position issue.token := by
  obtain ⟨whole, -⟩ := compileSections_issues.mp refused
  obtain ⟨ordered, late, inOrder⟩ := exists_inOrder grammar
  have held {tokens : List Token} (member : tokens ∈ sections (scan grammar)) :
      ∀ issue ∈ sectionIssues tokens, issue ∈ issues := by
    intro issue found
    rw [whole]
    exact List.mem_flatten.mpr ⟨_, List.mem_map_of_mem member, found⟩
  refine ⟨whole, ⟨_, ?_, inOrder⟩, fun single => ?_, fun issue found => ?_⟩
  · rw [List.forall₂_map_left_iff, List.forall₂_map_right_iff, List.forall₂_same]
    exact late
  · have same : (sections (scan grammar)).map sectionIssues =
        (sections (scan grammar)).map ordered :=
      List.map_congr_left fun tokens member => (late tokens member).eq_of_single
        fun issue found => single issue (held member issue found)
    rwa [whole, same]
  · rw [whole] at found
    obtain ⟨_, listed, found⟩ := List.mem_flatten.mp found
    obtain ⟨tokens, member, rfl⟩ := List.mem_map.mp listed
    exact sectionIssues_stand member found

/-- The second list has no length, which is recorded before the list itself. -/
theorem compileSections_refused_list :
    ∃ issues, compileSections "list 0 list *" = .error (.grammar issues) ∧
      issues.map (fun i => (i.position, i.token)) = [(12, "*"), (7, "list")] ∧
      (∃ ordered, List.Forall₂ Late
          ((sections (scan "list 0 list *")).map sectionIssues) ordered ∧
        ordered.flatten.Pairwise fun i j => i.position ≤ j.position) ∧
      ∀ issue ∈ issues, Stands "list 0 list *" issue.position issue.token := by
  have divided : sections (scan "list 0 list *") =
    [[⟨"", "list", 0⟩, ⟨" ", "0", 5⟩, ⟨" ", "list", 7⟩, ⟨" ", "*", 12⟩]] := rfl
  have refused : compileSections "list 0 list *" =
      .error (.grammar [⟨12, "*", Fault.openList.message⟩,
        ⟨7, "list", Fault.secondMessage.message⟩]) := by
    rw [compileSections_issues, divided]
    exact ⟨rfl, List.cons_ne_nil _ _⟩
  obtain ⟨-, order, -, stand⟩ := compileSections_refused refused
  exact ⟨_, refused, rfl, order, stand⟩

end TagWire.Layout
