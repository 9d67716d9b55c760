import TagWire.Layout.Parse

/-!
# Tokens spelled again

Tokens keep the separators before them, so a grammar can be spelled from some of its tokens. Scanned
again it gives these tokens, in other places.

- `Token.Respelled`: the same texts with the same separators between them.
- `Token.Spaced`: tokens with separators between them, as a scan gives them.
- `Token.scan_spell`: what is scanned from spelled tokens.
- `Token.sections_spell`: a part of a section, spelled as a grammar.
-/

namespace TagWire.Layout.Token

/-- The same texts with the same separators between them. What is before the first does not
count. -/
def Respelled (tokens tokens' : List Token) : Prop :=
  tokens.map text = tokens'.map text ∧ tokens.tail.map before = tokens'.tail.map before

namespace Respelled

variable {tokens tokens' first first' rest rest' : List Token}

theorem refl (tokens : List Token) : Respelled tokens tokens := ⟨rfl, rfl⟩

theorem length_eq (h : Respelled tokens tokens') : tokens.length = tokens'.length := by
  have lengths := congrArg List.length h.1
  rwa [List.length_map, List.length_map] at lengths

theorem append (h : Respelled (first ++ rest) (first' ++ rest'))
    (length : first.length = first'.length) : Respelled first first' ∧ Respelled rest rest' := by
  obtain ⟨texts, befores⟩ := h
  rw [List.map_append, List.map_append] at texts
  obtain ⟨first_texts, rest_texts⟩ := List.append_inj texts (by simpa using length)
  cases first with
  | nil =>
    obtain rfl : first' = [] := List.length_eq_zero_iff.mp length.symm
    exact ⟨refl [], rest_texts, befores⟩
  | cons t first =>
    cases first' with
    | nil => cases length
    | cons t' first' =>
      simp only [List.cons_append, List.tail_cons, List.map_append] at befores
      obtain ⟨first_befores, rest_befores⟩ :=
        List.append_inj befores (by simpa using length)
      refine ⟨⟨first_texts, first_befores⟩, rest_texts, ?_⟩
      rw [List.map_tail, List.map_tail, rest_befores]

/-- Tokens that are spelled like two parts have two such parts. -/
theorem split (h : Respelled (first ++ rest) tokens) :
    ∃ first' rest', tokens = first' ++ rest' ∧ first.length = first'.length ∧
      Respelled first first' ∧ Respelled rest rest' := by
  have lengths := h.length_eq
  rw [List.length_append] at lengths
  have size : first.length = (tokens.take first.length).length := by
    rw [List.length_take]
    omega
  rw [← List.take_append_drop first.length tokens] at h
  exact ⟨_, _, (List.take_append_drop first.length tokens).symm, size, h.append size⟩

theorem cons {t : Token} (h : Respelled (t :: rest) tokens) :
    ∃ t' rest', tokens = t' :: rest' ∧ t.text = t'.text ∧ Respelled rest rest' := by
  rw [← List.singleton_append] at h
  obtain ⟨first', rest', rfl, length, one, others⟩ := split h
  obtain ⟨t', rfl⟩ := List.length_eq_one_iff.mp length.symm
  exact ⟨t', rest', rfl, List.head_eq_of_cons_eq one.1, others⟩

theorem nil (h : Respelled [] tokens) : tokens = [] :=
  List.length_eq_zero_iff.mp h.length_eq.symm

theorem lexeme_eq {t t' : Token} (same : t.text = t'.text) : t.lexeme = t'.lexeme := by
  rw [lexeme, lexeme, same]

theorem isWord_eq {t t' : Token} (same : t.text = t'.text) (word : String) :
    t.isWord word = t'.isWord word := by
  rw [isWord, isWord, lexeme_eq same, same]

end Respelled

/-- Whether a section is a list of its own depends on its words alone. -/
theorem isWrapped_of_texts {tokens tokens' : List Token}
    (texts : tokens.map text = tokens'.map text) :
    isWrapped tokens = isWrapped tokens' := by
  have by_text (tokens : List Token) :
      isWrapped tokens = isWrapped ((tokens.map text).map fun word => ⟨"", word, 0⟩) := by
    simp only [isWrapped, List.any_map]
    rfl
  rw [by_text tokens, texts, ← by_text]

theorem spell_toList (t : Token) (rest : List Token) :
    (spell (t :: rest)).toList =
      t.text.toList ++ rest.flatMap fun t => t.before.toList ++ t.text.toList := by
  rw [spell]
  generalize t.text = text
  induction rest generalizing text with
  | nil => simp
  | cons t rest ih =>
    rw [List.foldl_cons, ih, String.toList_append, String.toList_append, List.flatMap_cons]
    simp only [List.append_assoc]

theorem Respelled.spell_eq {tokens tokens' : List Token} (h : Respelled tokens tokens') :
    spell tokens = spell tokens' := by
  cases tokens with
  | nil =>
    obtain rfl := h.nil
    rfl
  | cons t rest =>
    obtain ⟨t', rest', rfl, same, -⟩ := h.cons
    have texts : rest.map text = rest'.map text := (List.cons.inj h.1).2
    have befores : rest.map before = rest'.map before := h.2
    apply String.toList_inj.mp
    rw [spell_toList, spell_toList, same]
    congr 1
    clear h same
    induction rest generalizing rest' with
    | nil =>
      obtain rfl : rest' = [] := List.map_eq_nil_iff.mp texts.symm
      rfl
    | cons u rest ih =>
      cases rest' with
      | nil => cases texts
      | cons u' rest' =>
        obtain ⟨text_eq, texts⟩ := List.cons.inj texts
        obtain ⟨before_eq, befores⟩ := List.cons.inj befores
        rw [List.flatMap_cons, List.flatMap_cons, text_eq, before_eq, ih rest' texts befores]

/-- A token as a scan gives it: separators, and behind them a text that has none. -/
def Solid (t : Token) : Prop :=
  t.text.toList ≠ [] ∧ (∀ c ∈ t.text.toList, isSeparator c = false) ∧
    ∀ c ∈ t.before.toList, isSeparator c = true

/-- Tokens with separators between them, as a scan gives them. -/
structure Spaced (tokens : List Token) : Prop where
  solid : ∀ t ∈ tokens, t.Solid
  apart : ∀ t ∈ tokens.tail, t.before.toList ≠ []

theorem Spaced.sublist {tokens kept : List Token} (spaced : Spaced tokens)
    (part : kept.Sublist tokens) :
    Spaced kept where
  solid t member := spaced.solid t (part.subset member)
  apart t member := spaced.apart t (part.tail.subset member)

/-- The token under way. -/
theorem solid_reversed {before text : List Char} (start : Nat) (some_text : text ≠ [])
    (blank : ∀ c ∈ before, isSeparator c = true) (plain : ∀ c ∈ text, isSeparator c = false) :
    Solid ⟨String.ofList before.reverse, String.ofList text.reverse, start⟩ := by
  simpa [Solid, some_text] using ⟨plain, blank⟩

/-- Only the first token of what is scanned may have no separators before it, and it has them where
some have been read. -/
theorem spaced_scanFrom (before text : List Char) (start : Nat) (rest : List Char)
    (blank : ∀ c ∈ before, isSeparator c = true) (plain : ∀ c ∈ text, isSeparator c = false) :
    Spaced (scanFrom before text start rest) ∧
      (before ≠ [] → ∀ t ∈ scanFrom before text start rest, t.before.toList ≠ []) := by
  fun_induction scanFrom before text start rest with
  | case1 before start => exact ⟨⟨by simp, by simp⟩, by simp⟩
  | case2 before text start some_text =>
    exact ⟨⟨by simpa using solid_reversed start some_text blank plain, by simp⟩, by simp⟩
  | case3 before start c rest separator ih =>
    obtain ⟨spaced, apart⟩ := ih (by simpa [separator] using blank) plain
    exact ⟨spaced, fun _ => apart (List.cons_ne_nil c before)⟩
  | case4 before text start c rest separator some_text token ih =>
    obtain ⟨spaced, apart⟩ := ih (by simpa using separator) (by simp)
    have apart := apart (List.cons_ne_nil c [])
    have solid : token.Solid := solid_reversed start some_text blank plain
    refine ⟨⟨List.forall_mem_cons.mpr ⟨solid, spaced.solid⟩, apart⟩, fun some_before => ?_⟩
    exact List.forall_mem_cons.mpr ⟨by simpa [token] using some_before, apart⟩
  | case5 before text start c rest other ih =>
    exact ih blank (List.forall_mem_cons.mpr ⟨by simpa using other, plain⟩)

theorem spaced_scan (grammar : String) : Spaced (scan grammar) :=
  (spaced_scanFrom [] [] 0 grammar.toList (by simp) (by simp)).1

/-- Characters of a text are added to the token under way. -/
theorem scanFrom_plain {before text : List Char} {start : Nat} {cs : List Char}
    (plain : ∀ c ∈ cs, isSeparator c = false) (rest : List Char) :
    scanFrom before text start (cs ++ rest) = scanFrom before (cs.reverse ++ text) start rest := by
  induction cs generalizing text with
  | nil => rfl
  | cons c cs ih =>
    obtain ⟨c_plain, cs_plain⟩ := List.forall_mem_cons.mp plain
    rw [List.cons_append, scanFrom, if_neg (by simp [c_plain]), ih cs_plain, List.reverse_cons,
      List.append_assoc, List.singleton_append]

/-- Separators behind others are added to them. -/
theorem scanFrom_blank (before : List Char) {start : Nat} {cs : List Char}
    (blank : ∀ c ∈ cs, isSeparator c = true) (rest : List Char) :
    ∃ start', scanFrom before [] start (cs ++ rest) =
      scanFrom (cs.reverse ++ before) [] start' rest := by
  induction cs generalizing before start with
  | nil => exact ⟨start, rfl⟩
  | cons c cs ih =>
    obtain ⟨c_blank, cs_blank⟩ := List.forall_mem_cons.mp blank
    obtain ⟨start', scanned⟩ := ih (c :: before) cs_blank
    refine ⟨start', ?_⟩
    rw [List.cons_append, scanFrom, if_pos c_blank, if_pos rfl, scanned, List.reverse_cons,
      List.append_assoc, List.singleton_append]

/-- Separators end the token under way. -/
theorem scanFrom_apart (before : List Char) {text : List Char} (start : Nat) {cs : List Char}
    (some_text : text ≠ []) (some_blank : cs ≠ []) (blank : ∀ c ∈ cs, isSeparator c = true)
    (rest : List Char) :
    ∃ start', scanFrom before text start (cs ++ rest) =
      ⟨String.ofList before.reverse, String.ofList text.reverse, start⟩ ::
        scanFrom cs.reverse [] start' rest := by
  obtain ⟨c, cs, rfl⟩ := List.exists_cons_of_ne_nil some_blank
  obtain ⟨c_blank, cs_blank⟩ := List.forall_mem_cons.mp blank
  rw [List.cons_append, scanFrom, if_pos c_blank, if_neg some_text, List.reverse_cons]
  exact (scanFrom_blank [c] cs_blank rest).imp fun _ scanned => congrArg _ scanned

/-- Behind a token under way, spelled tokens are found again. -/
theorem scanFrom_spelled (before : List Char) {text : List Char} (start : Nat)
    (some_text : text ≠ [])
    {tokens : List Token} (solid : ∀ t ∈ tokens, t.Solid)
    (apart : ∀ t ∈ tokens, t.before.toList ≠ []) :
    ∃ rest, scanFrom before text start
        (tokens.flatMap fun t => t.before.toList ++ t.text.toList) =
          ⟨String.ofList before.reverse, String.ofList text.reverse, start⟩ :: rest ∧
      tokens.map Token.text = rest.map Token.text ∧
      tokens.map Token.before = rest.map Token.before := by
  induction tokens generalizing before text start with
  | nil => exact ⟨[], by rw [List.flatMap_nil, scanFrom, if_neg some_text], rfl, rfl⟩
  | cons t tokens ih =>
    obtain ⟨⟨t_text, t_plain, t_blank⟩, tokens_solid⟩ := List.forall_mem_cons.mp solid
    obtain ⟨t_before, tokens_apart⟩ := List.forall_mem_cons.mp apart
    rw [List.flatMap_cons, List.append_assoc]
    obtain ⟨start', scanned⟩ := scanFrom_apart before start some_text
      t_before t_blank (t.text.toList ++ tokens.flatMap fun t => t.before.toList ++ t.text.toList)
    rw [scanned, scanFrom_plain t_plain, List.append_nil]
    obtain ⟨rest, scanned, texts, befores⟩ :=
      ih t.before.toList.reverse start' (List.reverse_ne_nil_iff.mpr t_text) tokens_solid
        tokens_apart
    refine ⟨_, congrArg _ scanned, ?_, ?_⟩
    · simp [texts]
    · simp [befores]

/-- What is scanned from spelled tokens. -/
theorem scan_spell {tokens : List Token} (spaced : Spaced tokens) :
    Respelled tokens (scan (spell tokens)) := by
  cases tokens with
  | nil => exact .refl []
  | cons t tokens =>
    obtain ⟨⟨some_text, plain, -⟩, solid⟩ := List.forall_mem_cons.mp spaced.solid
    rw [scan, spell_toList, scanFrom_plain plain, List.append_nil]
    obtain ⟨rest, scanned, texts, befores⟩ :=
      scanFrom_spelled [] 0 (List.reverse_ne_nil_iff.mpr some_text) solid spaced.apart
    rw [scanned, List.reverse_reverse, String.ofList_toList]
    exact ⟨by rw [List.map_cons, List.map_cons, texts], befores⟩

/-- A section is a part of the tokens, without separator tokens. -/
theorem sections_part {tokens whole : List Token} (member : tokens ∈ sections whole) :
    tokens.Sublist whole ∧ ∀ t ∈ tokens, t.lexeme ≠ .separator := by
  induction whole generalizing tokens with
  | nil =>
    obtain rfl := List.mem_singleton.mp member
    exact ⟨.slnil, by simp⟩
  | cons t rest ih =>
    rw [sections] at member
    split at member
    · rcases List.mem_cons.mp member with rfl | member
      · exact ⟨List.nil_sublist _, by simp⟩
      · exact ⟨(ih member).1.cons t, (ih member).2⟩
    · rename_i plain
      split at member
      · obtain rfl := List.mem_singleton.mp member
        exact ⟨(List.nil_sublist rest).cons_cons t, by simpa using plain⟩
      · rename_i first others divided
        rw [divided] at ih
        rcases List.mem_cons.mp member with rfl | member
        · obtain ⟨part, plain_first⟩ := ih List.mem_cons_self
          exact ⟨part.cons_cons t, List.forall_mem_cons.mpr ⟨plain, plain_first⟩⟩
        · obtain ⟨part, plain_other⟩ := ih (List.mem_cons_of_mem first member)
          exact ⟨part.cons t, plain_other⟩

theorem sections_single {tokens : List Token} (plain : ∀ t ∈ tokens, t.lexeme ≠ .separator) :
    sections tokens = [tokens] := by
  induction tokens with
  | nil => rfl
  | cons t rest ih =>
    obtain ⟨t_plain, rest_plain⟩ := List.forall_mem_cons.mp plain
    rw [sections, if_neg t_plain, ih rest_plain]

/-- A part of a section can be spelled as a grammar of one section. -/
theorem sections_spell {grammar : String} {tokens kept : List Token}
    (member : tokens ∈ sections (scan grammar)) (part : kept.Sublist tokens) :
    sections (scan (spell kept)) = [scan (spell kept)] ∧ Respelled kept (scan (spell kept)) := by
  obtain ⟨part_of_whole, plain⟩ := sections_part member
  have spelled := scan_spell ((spaced_scan grammar).sublist (part.trans part_of_whole))
  refine ⟨sections_single fun t' found => ?_, spelled⟩
  have text : t'.text ∈ kept.map Token.text := spelled.1 ▸ List.mem_map_of_mem found
  obtain ⟨t, kept_member, same⟩ := List.mem_map.mp text
  rw [← Respelled.lexeme_eq same]
  exact plain t (part.subset kept_member)

end TagWire.Layout.Token
