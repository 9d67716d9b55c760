import Mathlib.Data.List.Forall2
import TagWire.Proofs.Layout.Parallel
import TagWire.Proofs.Layout.Parsing
import TagWire.Proofs.Grammar.Words

/-!
# Grammars with the same words

What a grammar means depends on its words alone. Where they stand, and what separates them, shows only
in the places of issues and in the text that is quoted.

- `Error.unplaced`, `Layout.outcome`: what a grammar gives, apart from places and quotations.
- `readFields_alike`: the fields of a section, and what is found in it.
- `sections_alike`: the sections of a grammar.
- `compileSections_words`: grammars with the same words.
-/

namespace TagWire

/-- An error apart from places, and with other quotations. -/
def Error.unplaced (quote : String → String) : Error → Error
  | grammar issues => grammar (issues.map fun issue => { issue with position := 0 })
  | unsupportedConversion origin kind unit wire =>
    unsupportedConversion (quote origin) kind unit wire
  | error => error

namespace Layout

open Token (SameWords sections)

/-- What a grammar gives, apart from places, and with other quotations. -/
def outcome (quote : String → String) : Except Error (List Layout) → Except Error (List Layout)
  | .ok layouts => .ok (layouts.map (Layout.quoting quote))
  | .error error => .error (error.unplaced quote)

/-- A finding apart from its place, and with other quotations. -/
def Finding.unplaced (quote : String → String) : Finding → Finding
  | fault _ token what => fault 0 token what
  | noConversion origin kind wire => noConversion (quote origin) kind wire

variable {quote : String → String}

/-- Places and quotations of findings are those of the error that they amount to. -/
theorem Finding.error?_unplaced (findings : List Finding) :
    Finding.error? (findings.map (Finding.unplaced quote)) =
      (Finding.error? findings).map (Error.unplaced quote) := by
  have issues : (findings.map (Finding.unplaced quote)).filterMap issue? =
      (findings.filterMap issue?).map fun issue => { issue with position := 0 } := by
    simp only [List.filterMap_map, List.map_filterMap]
    congr 1
    funext finding
    cases finding <;> rfl
  have refusals : (findings.map (Finding.unplaced quote)).filterMap refusal? =
      (findings.filterMap refusal?).map (Error.unplaced quote) := by
    simp only [List.filterMap_map, List.map_filterMap]
    congr 1
    funext finding
    cases finding <;> rfl
  unfold Finding.error?
  rw [issues, refusals]
  cases findings.filterMap issue? with
  | nil => simp only [List.map_nil, List.head?_map]
  | cons issue rest => rfl

namespace Parallel

variable {s : Parallel} {p : Nat} {finding finding' : Finding}

theorem Found.unplaced_eq (found : s.Found p finding finding') :
    finding.unplaced s.quote = finding'.unplaced s.quote := by
  cases found with
  | @token i t t' _ left right what =>
    have texts := congrArg (·[i]?) s.alike.texts
    have text : t.text = t'.text := by simpa [left, right] using texts
    simp [Token.fault, Finding.unplaced, text]
  | ended => rfl
  | refused same => simp [Finding.unplaced, same]

end Parallel

namespace Parse

variable {α κ : Type} {p p' : Progress}

/-- What has been read of two grammars, and what is left: the same, apart from places and from what is
quoted. -/
structure Together (quote : String → String) (view : α → κ) (read read' : α × Progress) : Prop where
  answer : view read.1 = view read'.1
  rest : SameWords quote read.2.rest read'.2.rest
  findings : read.2.findings.map (Finding.unplaced quote) =
    read'.2.findings.map (Finding.unplaced quote)

/-- The same place in two grammars. -/
abbrev Beside (quote : String → String) (p p' : Progress) : Prop :=
  Together quote (fun _ : Unit => ()) ((), p) ((), p')

theorem Together.beside {view : α → κ} {read read' : α × Progress}
    (together : Together quote view read read') : Beside quote read.2 read'.2 :=
  ⟨rfl, together.rest, together.findings⟩

theorem Together.of_beside {view : α → κ} {a a' : α} (beside : Beside quote p p')
    (answer : view a = view a') : Together quote view (a, p) (a', p') :=
  ⟨answer, beside.rest, beside.findings⟩

/-- The same finding is added on both sides. -/
theorem Together.found (beside : Beside quote p p') {finding finding' : Finding}
    (same : finding.unplaced quote = finding'.unplaced quote) :
    Beside quote { p with findings := p.findings ++ [finding] }
      { p' with findings := p'.findings ++ [finding'] } := by
  refine ⟨rfl, beside.rest, ?_⟩
  simp only [List.map_append, List.map_cons, List.map_nil, beside.findings, same]

theorem Together.found_if (beside : Beside quote p p') {found : Prop} [Decidable found]
    {finding finding' : Finding} (same : finding.unplaced quote = finding'.unplaced quote) :
    Beside quote (if found then { p with findings := p.findings ++ [finding] } else p)
      (if found then { p' with findings := p'.findings ++ [finding'] } else p') := by
  by_cases holds : found
  · simpa only [holds, if_true] using beside.found same
  · simpa only [holds, if_false] using beside

theorem Together.rest_nil (beside : Beside quote p p') : p.rest = [] ↔ p'.rest = [] := by
  have lengths := beside.rest.length_eq
  rw [← List.length_eq_zero_iff, ← List.length_eq_zero_iff, lengths]

/-- A field is the same as another but for what it quotes. -/
abbrev fieldView (quote : String → String) : Option Field → Option Field :=
  Option.map (Field.quoting quote)

/-- Both count as visible, or neither does. -/
theorem Together.counts {first first' : Option Field × Progress}
    (field : Together quote (fieldView quote) first first') :
    countsAsVisible first.1 = countsAsVisible first'.1 := by
  have quoted (f : Option Field) : countsAsVisible (fieldView quote f) = countsAsVisible f := by
    cases f with
    | none => rfl
    | some f => exact f.isVisible_quoting quote
  rw [← quoted, field.answer, quoted]

theorem readField_together (fuel : Nat) (scope : Scope) (stop' : Nat)
    (inner : ∀ (scope : Scope) length p p', Beside quote p p' →
      Together quote (Field.allQuoting quote) (listFields fuel scope length 0 p)
        (listFields fuel { scope with stop := stop' } length 0 p'))
    (beside : Beside quote p p') :
    Together quote (fieldView quote) (readField fuel scope p)
      (readField fuel { scope with stop := stop' } p') := by
  let s : Parallel :=
    ⟨quote, p.rest, p'.rest, scope.stop, stop', scope.item, scope.isHidden, beside.rest⟩
  obtain ⟨q, r, r', -, left, right, agree⟩ := s.mirrors_read
  have left : (Head.read scope).run p.rest = (r, p.rest.drop q) := left
  have right : (Head.read { scope with stop := stop' }).run p'.rest = (r', p'.rest.drop q) := right
  have moved : Beside quote { p with rest := p.rest.drop q } { p' with rest := p'.rest.drop q } :=
    ⟨rfl, beside.rest.drop q, beside.findings⟩
  rw [readField_run, readField_run, left, right]
  cases agree with
  | error found => exact .of_beside (moved.found found.unplaced_eq) rfl
  | @ok head head' same =>
    cases head with
    | whole f =>
      cases head' with
      | whole f' => exact .of_beside moved (congrArg some (Head.whole.inj same))
      | opening => cases same
    | opening isHidden words item length =>
      cases head' with
      | whole => cases same
      | opening =>
        cases same
        have list := inner { scope with item, isHidden } length _ _ moved
        refine ⟨?_, list.rest, list.findings⟩
        simp only [fieldView, Option.map_some, Field.quoting, list.answer]

/-- A field, and then others. -/
theorem Together.cons {first first' : Option Field × Progress}
    {others others' : List Field × Progress} (field : Together quote (fieldView quote) first first')
    (behind : Together quote (Field.allQuoting quote) others others') :
    Together quote (Field.allQuoting quote) (first.1.toList ++ others.1, others.2)
      (first'.1.toList ++ others'.1, others'.2) := by
  have quoted (f : Option Field) :
      Field.allQuoting quote f.toList = (fieldView quote f).toList := by
    cases f <;> rfl
  refine ⟨?_, behind.rest, behind.findings⟩
  simp only [Field.allQuoting_append, quoted, field.answer, behind.answer]

theorem listFields_together (fuel : Nat) (scope : Scope) (stop' length found : Nat)
    (beside : Beside quote p p') :
    Together quote (Field.allQuoting quote) (listFields fuel scope length found p)
      (listFields fuel { scope with stop := stop' } length found p') := by
  induction fuel generalizing scope length found p p' with
  | zero => exact .of_beside beside rfl
  | succ fuel ih =>
    simp only [listFields_succ]
    by_cases complete : length ≤ found
    · simpa only [complete, if_true] using .of_beside beside rfl
    simp only [complete, if_false]
    -- as many tokens are left on either side, so both readings end here or neither does
    by_cases ended : p.rest = []
    · rw [if_pos ended, if_pos (beside.rest_nil.mp ended)]
      exact .of_beside (beside.found rfl) rfl
    · rw [if_neg ended, if_neg (mt beside.rest_nil.mpr ended)]
      have first := readField_together fuel scope stop'
        (fun scope length p p' beside => ih scope length 0 beside) beside
      rw [first.counts]
      exact first.cons (ih scope length _ first.beside)

theorem sectionFields_together (wrapped : Bool) (fuel : Nat) (scope : Scope) (stop' visible : Nat)
    (beside : Beside quote p p') :
    Together quote (Field.allQuoting quote) (sectionFields wrapped fuel scope visible p)
      (sectionFields wrapped fuel { scope with stop := stop' } visible p') := by
  induction fuel generalizing visible p p' with
  | zero => exact .of_beside beside rfl
  | succ fuel ih =>
    have first := readField_together fuel scope stop'
      (fun scope length p p' beside => listFields_together fuel scope stop' length 0 beside) beside
    have alike := beside.rest
    simp only [sectionFields_succ]
    cases left : p.rest with
    | nil =>
      simp only [left] at alike
      simpa only [alike.nil] using .of_beside beside rfl
    | cons t rest =>
      simp only [left] at alike
      obtain ⟨t', rest', right, text, -⟩ := alike.cons
      simp only [right, first.counts]
      refine first.cons (ih _ (first.beside.found_if ?_))
      simp only [Token.fault, Finding.unplaced, text]

end Parse

/-! ## Sections -/

/-- The fields of sections with the same words are the same apart from what they quote, and so is what
is found in them. -/
theorem readFields_alike {tokens tokens' : List Token} (alike : SameWords quote tokens tokens') :
    Field.allQuoting quote (readFields tokens).1 = Field.allQuoting quote (readFields tokens').1 ∧
      (readFields tokens).2.map (Finding.unplaced quote) =
        (readFields tokens').2.map (Finding.unplaced quote) := by
  have beside : Parse.Beside quote ⟨tokens, []⟩ ⟨tokens', []⟩ := ⟨rfl, alike, rfl⟩
  have read := Parse.sectionFields_together (isWrapped tokens) (tokens.length + 1)
    ⟨Token.stopOf tokens, none, false⟩ (Token.stopOf tokens') 0 beside
  simp only [readFields, ← Token.isWrapped_of_texts alike.texts, ← alike.length_eq]
  exact ⟨read.answer, read.findings⟩

/-- So are the layouts. -/
theorem ofFields_alike {tokens tokens' : List Token} (alike : SameWords quote tokens tokens') :
    (ofFields tokens (readFields tokens).1).quoting quote =
      (ofFields tokens' (readFields tokens').1).quoting quote := by
  have fields := (readFields_alike alike).1
  have counts : (readFields tokens).1.countP Field.isVisible =
      (readFields tokens').1.countP Field.isVisible := by
    rw [← Field.countP_quoting quote, fields, Field.countP_quoting]
  simp only [ofFields, Layout.quoting, ← Field.layOut_quoting, fields, alike.spell_eq, wrapping,
    Token.isWrapped_of_texts alike.texts, counts]

/-- The first section is a beginning of the tokens. -/
theorem sections_first (tokens : List Token) :
    ∃ n others, n ≤ tokens.length ∧ sections tokens = tokens.take n :: others := by
  induction tokens with
  | nil => exact ⟨0, [], Nat.le_refl 0, rfl⟩
  | cons t rest ih =>
    obtain ⟨n, others, within, divided⟩ := ih
    by_cases separates : t.lexeme = .separator
    · exact ⟨0, sections rest, Nat.zero_le _, by simp [sections, separates]⟩
    · exact ⟨n + 1, others, Nat.succ_le_succ within, by simp [sections, separates, divided]⟩

/-- Grammars with the same words have the same sections. -/
theorem sections_alike {tokens tokens' : List Token} (alike : SameWords quote tokens tokens') :
    List.Forall₂ (SameWords quote) (sections tokens) (sections tokens') := by
  induction tokens generalizing tokens' with
  | nil =>
    obtain rfl := alike.nil
    exact .cons alike .nil
  | cons t rest ih =>
    have whole := alike
    obtain ⟨t', rest', rfl, text, alike⟩ := alike.cons
    have divided := ih alike
    by_cases separates : t.lexeme = .separator
    · have separates' := Token.Respelled.lexeme_eq text ▸ separates
      simp only [sections, separates, separates', if_true]
      exact .cons (whole.take 0) divided
    · have joins' := Token.Respelled.lexeme_eq text ▸ separates
      obtain ⟨n, others, within, first⟩ := sections_first rest
      obtain ⟨n', others', within', first'⟩ := sections_first rest'
      rw [first, first'] at divided
      obtain ⟨start, behind⟩ := List.forall₂_cons.mp divided
      -- both first sections are as long, so they are the same part of both grammars
      obtain rfl : n = n' := by simpa [within, within'] using start.length_eq
      simp only [sections, separates, joins', if_false, first, first']
      exact .cons (whole.take (n + 1)) behind

/-! ## Grammars -/

theorem outcome_compileSections (grammar : String) :
    outcome quote (compileSections grammar) =
      match Finding.error? ((sections (Token.scan grammar)).flatMap fun tokens =>
        (readFields tokens).2.map (Finding.unplaced quote)) with
      | some error => .error error
      | none => .ok ((sections (Token.scan grammar)).map fun tokens =>
        (ofFields tokens (readFields tokens).1).quoting quote) := by
  unfold compileSections
  simp only [← List.map_flatMap, Finding.error?_unplaced, List.flatMap_map]
  cases Finding.error? ((sections (Token.scan grammar)).flatMap fun tokens =>
    (readFields tokens).2) with
  | some error => rfl
  | none => simp only [outcome, Option.map_none, List.map_map, Function.comp_def]

/-- Tokens that are alike give the same, wherever they stand. -/
theorem outcome_alike {grammar grammar' : String}
    (alike : SameWords quote (Token.scan grammar) (Token.scan grammar')) :
    outcome quote (compileSections grammar) = outcome quote (compileSections grammar') := by
  -- what is made of sections that are alike is the same, one by one
  have made {α : Type} (make : List Token → α)
      (same : ∀ tokens tokens', SameWords quote tokens tokens' → make tokens = make tokens') :
      (sections (Token.scan grammar)).map make = (sections (Token.scan grammar')).map make := by
    rw [← List.forall₂_eq_eq_eq, List.forall₂_map_left_iff, List.forall₂_map_right_iff]
    exact (sections_alike alike).imp same
  have findings := made _ fun tokens tokens' alike => (readFields_alike alike).2
  have layouts := made _ fun tokens tokens' alike => ofFields_alike alike
  rw [outcome_compileSections, outcome_compileSections]
  simp only [List.flatMap_def, findings, layouts]

/-- The same words give the same layouts, apart from what they quote, or the same error, apart from
places and from what it quotes. -/
theorem compileSections_words {grammar grammar' : String}
    (same : Grammar.words grammar = Grammar.words grammar') :
    outcome (fun _ => "") (compileSections grammar) =
        outcome (fun _ => "") (compileSections grammar') ∧
      ∀ layouts layouts', compileSections grammar = .ok layouts →
        compileSections grammar' = .ok layouts' →
          layouts.map template = layouts'.map template := by
  rw [← Token.text_scan, ← Token.text_scan] at same
  have outcomes := outcome_alike (.of_texts same)
  refine ⟨outcomes, fun layouts layouts' compiled compiled' => ?_⟩
  rw [compiled, compiled'] at outcomes
  have quoted := congrArg (List.map template) (Except.ok.inj outcomes)
  simpa only [List.map_map, Function.comp_def, template_quoting] using quoted

/-- With a comma, a tab and a blank in front. -/
theorem compileSections_words_spacing :
    Grammar.words "list 1, int8 *" = Grammar.words " list 1 int8\t*" ∧
      outcome (fun _ => "") (compileSections "list 1, int8 *") =
        outcome (fun _ => "") (compileSections " list 1 int8\t*") ∧
      ∃ layouts layouts', compileSections "list 1, int8 *" = .ok layouts ∧
        compileSections " list 1 int8\t*" = .ok layouts' ∧
        layouts.map template = layouts'.map template := by
  have same : Grammar.words "list 1, int8 *" = Grammar.words " list 1 int8\t*" := by
    trans ["list", "1", "int8", "*"]
    · rw [← Token.text_scan]
      rfl
    · rw [← Token.text_scan]
      rfl
  obtain ⟨outcomes, templates⟩ := compileSections_words same
  have compiled := @compileSections_single "list 1, int8 *"
    [⟨"", "list", 0⟩, ⟨" ", "1", 5⟩, ⟨", ", "int8", 8⟩, ⟨" ", "*", 13⟩]
    [.group false [256, 1] [.data [32] ⟨.fixed 1, .int8, .identity, .exchanged, "int8 *"⟩]] rfl rfl
  have compiled' := @compileSections_single " list 1 int8\t*"
    [⟨" ", "list", 1⟩, ⟨" ", "1", 6⟩, ⟨" ", "int8", 8⟩, ⟨"\t", "*", 13⟩]
    [.group false [256, 1] [.data [32] ⟨.fixed 1, .int8, .identity, .exchanged, "int8\t*"⟩]] rfl rfl
  exact ⟨same, outcomes, _, _, compiled, compiled', templates _ _ compiled compiled'⟩

end Layout

end TagWire
