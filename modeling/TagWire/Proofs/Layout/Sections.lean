import TagWire.Proofs.Layout.Compiled
import TagWire.Proofs.Layout.Relocation

/-!
# Sections apart from each other

A section gives its layout whatever stands around it, and the text that the layout keeps of it gives
the layout again.

- `Gives`: a section and its layout.
- `Token.scan_divided`: what is scanned from two grammars with dashes between them.
- `compileSections_apart`: grammars with dashes between them, and the grammar of a layout.
-/

namespace TagWire.Layout

namespace Token

variable {tokens tokens' others : List Token}

theorem Respelled.symm (spelled : Respelled tokens tokens') : Respelled tokens' tokens :=
  ⟨spelled.1.symm, spelled.2.symm⟩

/-- The place of the token under way shows in places only. -/
theorem scanFrom_start (before text : List Char) (start start' : Nat) (rest : List Char) :
    (scanFrom before text start rest).map Token.text =
        (scanFrom before text start' rest).map Token.text ∧
      (scanFrom before text start rest).map Token.before =
        (scanFrom before text start' rest).map Token.before := by
  induction rest generalizing before text start start' with
  | nil =>
    simp only [scanFrom]
    split
    · exact ⟨rfl, rfl⟩
    · exact ⟨rfl, rfl⟩
  | cons c rest ih =>
    simp only [scanFrom]
    split
    · split
      · exact ih ..
      · exact ⟨congrArg (List.cons _) (ih ..).1, congrArg (List.cons _) (ih ..).2⟩
    · exact ih ..

/-- Scanned behind other separators, a text has the same tokens. -/
theorem scanFrom_moved (before before' text : List Char) (start start' : Nat) (rest : List Char) :
    Respelled (scanFrom before text start rest) (scanFrom before' text start' rest) := by
  induction rest generalizing before before' text start start' with
  | nil =>
    simp only [scanFrom]
    split
    · exact .refl []
    · exact ⟨rfl, rfl⟩
  | cons c rest ih =>
    simp only [scanFrom]
    split
    · split
      · exact ih ..
      · -- the other separators are before this token, and from here on they are the same
        exact ⟨congrArg (List.cons _) (scanFrom_start ..).1, (scanFrom_start ..).2⟩
    · exact ih ..

/-- What is behind a separator does not depend on what is before it. -/
theorem scanFrom_append (before text : List Char) (start : Nat) (cs : List Char) {c : Char}
    (separates : isSeparator c = true) (rest : List Char) :
    ∃ before' start', scanFrom before text start (cs ++ c :: rest) =
      scanFrom before text start cs ++ scanFrom before' [] start' rest := by
  induction cs generalizing before text start with
  | nil =>
    by_cases empty : text = []
    · exact ⟨c :: before, start + c.utf8Size, by simp [scanFrom, separates, empty]⟩
    · refine ⟨[c], start + (String.ofList text.reverse).utf8ByteSize + c.utf8Size, ?_⟩
      simp only [List.nil_append, scanFrom, separates, empty, if_true, if_false]
      rfl
  | cons d cs ih =>
    simp only [List.cons_append, scanFrom]
    split
    · split
      · exact ih ..
      · obtain ⟨before', start', scanned⟩ := ih [d] [] _
        exact ⟨before', start', congrArg (List.cons _) scanned⟩
    · exact ih ..

/-- Grammars with dashes between them have the tokens of both, with a separator token between
them. -/
theorem scan_divided (a b : String) :
    ∃ t tokens, t.lexeme = .separator ∧ Respelled tokens (scan b) ∧
      scan (a ++ " --- " ++ b) = scan a ++ t :: tokens := by
  obtain ⟨before, start, scanned⟩ :=
    scanFrom_append [] [] 0 a.toList (show isSeparator ' ' = true by decide)
      ('-' :: '-' :: '-' :: ' ' :: b.toList)
  have whole : scan (a ++ " --- " ++ b) =
      scan a ++ scanFrom before [] start ('-' :: '-' :: '-' :: ' ' :: b.toList) := by
    simpa [scan] using scanned
  exact ⟨⟨String.ofList before.reverse, "---", start⟩, _, by simp [lexeme],
    scanFrom_moved [' '] [] [] _ 0 b.toList, whole⟩

/-- A separator token ends a section. -/
theorem sections_append {t : Token} (separates : t.lexeme = .separator) :
    sections (tokens ++ t :: others) = sections tokens ++ sections others := by
  induction tokens with
  | nil => simp [sections, separates]
  | cons first rest ih =>
    obtain ⟨n, behind, -, divided⟩ := sections_first rest
    simp only [List.cons_append, sections, ih, divided]
    split <;> rfl

end Token

open Token (SameWords sections)

/-- Nothing is wrong with the section, and this is its layout. -/
def Gives (tokens : List Token) (layout : Layout) : Prop :=
  (readFields tokens).2 = [] ∧ layout = ofFields tokens (readFields tokens).1

theorem compileSections_gives {grammar : String} {layouts : List Layout} :
    compileSections grammar = .ok layouts ↔
      List.Forall₂ Gives (sections (Token.scan grammar)) layouts := by
  rw [compileSections_ok]
  generalize sections (Token.scan grammar) = sections
  induction sections generalizing layouts with
  | nil => simp
  | cons tokens rest ih =>
    simp only [List.forall_mem_cons, List.map_cons, List.forall₂_cons_left_iff, ← ih, Gives]
    grind

/-- Tokens that are spelled alike give the same layout. -/
theorem Gives.alike {tokens tokens' : List Token} {layout : Layout} (gives : Gives tokens layout)
    (alike : SameWords id tokens tokens') : Gives tokens' layout := by
  obtain ⟨silent, rfl⟩ := gives
  have findings := (readFields_alike alike).2
  have layouts := ofFields_alike alike
  simp only [Layout.quoting_id] at layouts
  refine ⟨?_, layouts⟩
  rw [silent] at findings
  simpa using findings.symm

theorem gives_alike {divided divided' : List (List Token)} {layouts : List Layout}
    (alike : List.Forall₂ (SameWords id) divided divided')
    (gives : List.Forall₂ Gives divided layouts) :
    List.Forall₂ Gives divided' layouts := by
  induction alike generalizing layouts with
  | nil => exact gives
  | cons first rest ih =>
    cases gives with
    | cons given behind => exact .cons (given.alike first) (ih behind)

/-- Sections in a row give the layouts of both parts. -/
theorem gives_append {first others : List (List Token)} {layouts : List Layout} :
    List.Forall₂ Gives (first ++ others) layouts ↔
      ∃ before behind, List.Forall₂ Gives first before ∧ List.Forall₂ Gives others behind ∧
        layouts = before ++ behind := by
  constructor
  · intro gives
    have front := List.forall₂_take first.length gives
    have back := List.forall₂_drop first.length gives
    rw [List.take_left] at front
    rw [List.drop_left] at back
    exact ⟨_, _, front, back, (List.take_append_drop ..).symm⟩
  · rintro ⟨before, behind, given, further, rfl⟩
    exact List.rel_append given further

/-- Grammars with dashes between them can be compiled if both can, and give the layouts of the first
and then those of the second. The text of a layout gives just that layout again. -/
theorem compileSections_apart :
    (∀ a b layouts, compileSections (a ++ " --- " ++ b) = .ok layouts ↔
      ∃ first second, compileSections a = .ok first ∧ compileSections b = .ok second ∧
        layouts = first ++ second) ∧
    ∀ grammar layouts, compileSections grammar = .ok layouts → ∀ layout ∈ layouts,
      compileSections layout.grammar = .ok [layout] := by
  constructor
  · intro a b layouts
    obtain ⟨t, tokens, separates, spelled, scanned⟩ := Token.scan_divided a b
    have there : List.Forall₂ (SameWords id) (sections tokens) (sections (Token.scan b)) :=
      sections_alike spelled.alike
    have back : List.Forall₂ (SameWords id) (sections (Token.scan b)) (sections tokens) :=
      sections_alike spelled.symm.alike
    simp only [compileSections_gives, scanned, Token.sections_append separates, gives_append]
    constructor
    · rintro ⟨first, second, given, further, whole⟩
      exact ⟨first, second, given, gives_alike there further, whole⟩
    · rintro ⟨first, second, given, further, whole⟩
      exact ⟨first, second, given, gives_alike back further, whole⟩
  · intro grammar layouts compiled layout member
    obtain ⟨silent, rfl⟩ := compileSections_ok.mp compiled
    obtain ⟨tokens, section_member, rfl⟩ := List.mem_map.mp member
    obtain ⟨divided, spelled⟩ := Token.sections_spell section_member (List.Sublist.refl tokens)
    have gives : Gives tokens (ofFields tokens (readFields tokens).1) :=
      ⟨silent tokens section_member, rfl⟩
    have again : sections (Token.scan (ofFields tokens (readFields tokens).1).grammar) =
      [Token.scan (Token.spell tokens)] := divided
    rw [compileSections_gives, again]
    exact .cons (gives.alike spelled.alike) .nil

/-- A request and its reply. -/
theorem compileSections_exchange :
    ∃ request reply, compileSections "int8 *" = .ok [request] ∧
      compileSections " list 1, string *" = .ok [reply] ∧
      compileSections ("int8 *" ++ " --- " ++ " list 1, string *") = .ok [request, reply] ∧
      compileSections reply.grammar = .ok [reply] := by
  have request := @compileSections_single "int8 *" [⟨"", "int8", 0⟩, ⟨" ", "*", 5⟩]
    [.data [32] ⟨.fixed 1, .int8, .identity, .exchanged, "int8 *"⟩] rfl rfl
  have reply := @compileSections_single " list 1, string *"
    [⟨" ", "list", 1⟩, ⟨" ", "1", 6⟩, ⟨", ", "string", 9⟩, ⟨" ", "*", 16⟩]
    [.group false [256, 1] [.data [4] ⟨.fixed 1, .string, .identity, .exchanged, "string *"⟩]]
    rfl rfl
  have whole := (compileSections_apart.1 _ _ _).mpr ⟨_, _, request, reply, rfl⟩
  exact ⟨_, _, request, reply, whole, compileSections_apart.2 _ _ reply _ (by simp)⟩

end TagWire.Layout
