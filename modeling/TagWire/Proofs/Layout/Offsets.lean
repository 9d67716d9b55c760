import Mathlib.Data.List.Basic
import TagWire.Layout.Token

/-!
# Where tokens stand

Each token keeps the place where it starts. The tokens of a grammar, and of each of its sections, come
in the order of these places, and the grammar has the text of each in its place.

- `Token.stands_scan`: a token stands in the grammar where it says.
- `Token.Laid`: tokens in order, up to an end.
- `Token.sections_apart`: the tokens of all sections.
-/

namespace TagWire.Layout

/-- The word stands in the text from this byte on. -/
def Stands (text : String) (position : Nat) (word : String) : Prop :=
  ∃ before behind, text = before ++ word ++ behind ∧ before.utf8ByteSize = position

theorem Stands.behind {text word : String} {position : Nat} (stands : Stands text position word)
    (front : String) : Stands (front ++ text) (front.utf8ByteSize + position) word := by
  obtain ⟨before, behind, rfl, rfl⟩ := stands
  refine ⟨front ++ before, behind, ?_, String.utf8ByteSize_append⟩
  simp only [String.append_assoc]

namespace Token

variable {t : Token} {tokens rest : List Token}

theorem start_le_stop (t : Token) : t.start ≤ t.stop := Nat.le_add_right ..

/-- Nothing stands where a token ends. -/
theorem stands_stop {text : String} (stands : Stands text t.start t.text) :
    Stands text t.stop "" := by
  obtain ⟨before, behind, whole, size⟩ := stands
  refine ⟨before ++ t.text, behind, ?_, ?_⟩
  · simpa using whole
  · rw [String.utf8ByteSize_append, size, stop]

theorem stands_scanFrom (before text : List Char) (start : Nat) (rest : List Char) :
    ∀ t ∈ scanFrom before text start rest, ∃ offset, t.start = start + offset ∧
      Stands (String.ofList (text.reverse ++ rest)) offset t.text := by
  fun_induction scanFrom before text start rest with
  | case1 before start => simp
  | case2 before text start some_text =>
    exact List.forall_mem_singleton.mpr ⟨0, rfl, "", "", by simp, rfl⟩
  | case3 before start c rest separator ih =>
    intro t member
    obtain ⟨offset, place, stands⟩ := ih t member
    refine ⟨c.utf8Size + offset, by omega, ?_⟩
    simpa using stands.behind (String.singleton c)
  | case4 before text start c rest separator some_text token ih =>
    refine List.forall_mem_cons.mpr ⟨⟨0, rfl, "", String.ofList (c :: rest), ?_, rfl⟩, ?_⟩
    · simp [token]
    intro t member
    obtain ⟨offset, place, stands⟩ := ih t member
    refine ⟨token.text.utf8ByteSize + (c.utf8Size + offset), ?_, ?_⟩
    · simp only [place, stop, token, Nat.add_assoc]
    · simpa [token] using (stands.behind (String.singleton c)).behind token.text
  | case5 before text start c rest other ih =>
    simpa using ih

/-- A token stands in the grammar where it says. -/
theorem stands_scan {grammar : String} (member : t ∈ scan grammar) :
    Stands grammar t.start t.text := by
  obtain ⟨offset, place, stands⟩ := stands_scanFrom [] [] 0 grammar.toList t member
  simpa [place] using stands

/-- Each token ends before the next one begins. -/
abbrev Apart (tokens : List Token) : Prop := tokens.Pairwise fun t u => t.stop ≤ u.start

/-- Tokens are scanned in order, and none begins before the text under way. -/
theorem apart_scanFrom (before text : List Char) (start : Nat) (rest : List Char) :
    Apart (scanFrom before text start rest) ∧
      ∀ t ∈ scanFrom before text start rest, start ≤ t.start := by
  fun_induction scanFrom before text start rest with
  | case1 before start => simp
  | case2 before text start some_text => simp
  | case3 before start c rest separator ih =>
    obtain ⟨apart, later⟩ := ih
    exact ⟨apart, fun t member => Nat.le_trans (Nat.le_add_right ..) (later t member)⟩
  | case4 before text start c rest separator some_text token ih =>
    obtain ⟨apart, later⟩ := ih
    have behind : ∀ u ∈ scanFrom [c] [] (token.stop + c.utf8Size) rest, token.stop ≤ u.start :=
      fun u member => Nat.le_trans (Nat.le_add_right ..) (later u member)
    refine ⟨List.pairwise_cons.mpr ⟨behind, apart⟩, List.forall_mem_cons.mpr ⟨Nat.le_refl _, ?_⟩⟩
    exact fun u member => Nat.le_trans token.start_le_stop (behind u member)
  | case5 before text start c rest other ih => exact ih

/-- Tokens in order, up to a place that none passes. -/
structure Laid (stop : Nat) (tokens : List Token) : Prop where
  apart : Apart tokens
  within : ∀ t ∈ tokens, t.stop ≤ stop

theorem stopOf_concat (front : List Token) (last : Token) :
    stopOf (front ++ [last]) = last.stop := by
  simp [stopOf]

/-- Tokens in order end where the last of them does. -/
theorem laid_of_apart (apart : Apart tokens) : Laid (stopOf tokens) tokens := by
  refine ⟨apart, fun t member => ?_⟩
  obtain rfl | ⟨front, last, rfl⟩ := List.eq_nil_or_concat' tokens
  · cases member
  · obtain ⟨-, -, before⟩ := List.pairwise_append.mp apart
    rw [stopOf_concat]
    rcases List.mem_append.mp member with inside | final
    · exact Nat.le_trans (before t inside last (by simp)) last.start_le_stop
    · exact Nat.le_of_eq (congrArg Token.stop (List.mem_singleton.mp final))

/-- Where the tokens begin, or the place given where there are none. -/
def place (stop : Nat) (tokens : List Token) : Nat := (tokens.head?.map start).getD stop

namespace Laid

variable {stop : Nat}

theorem suffix (laid : Laid stop tokens) (part : rest <:+ tokens) : Laid stop rest where
  apart := laid.apart.sublist part.sublist
  within t member := laid.within t (part.subset member)

theorem place_le (laid : Laid stop tokens) (part : rest <:+ tokens) :
    place stop tokens ≤ place stop rest := by
  obtain ⟨taken, rfl⟩ := part
  cases taken with
  | nil => exact Nat.le_refl _
  | cons t taken =>
    cases rest with
    | nil => exact Nat.le_trans t.start_le_stop (laid.within t List.mem_cons_self)
    | cons u rest =>
      have before := (List.pairwise_cons.mp laid.apart).1 u (by simp)
      exact Nat.le_trans t.start_le_stop before

theorem place_le_stop (laid : Laid stop tokens) : place stop tokens ≤ stop :=
  laid.place_le (List.nil_suffix (l := tokens))

end Laid

/-! ## Sections -/

/-- Sections have nothing but tokens of the grammar, in their order. -/
theorem sections_sublist (tokens : List Token) : (sections tokens).flatten.Sublist tokens := by
  induction tokens with
  | nil => exact .slnil
  | cons t rest ih =>
    rw [sections]
    split
    · exact ih.cons t
    · split
      · exact (List.nil_sublist rest).cons_cons t
      · rename_i first others divided
        rw [divided] at ih
        exact ih.cons_cons t

theorem sections_apart (grammar : String) : Apart (sections (scan grammar)).flatten :=
  (apart_scanFrom [] [] 0 grammar.toList).1.sublist (sections_sublist _)

theorem section_apart {grammar : String} (member : tokens ∈ sections (scan grammar)) :
    Apart tokens :=
  (List.pairwise_flatten.mp (sections_apart grammar)).1 tokens member

end Token

end TagWire.Layout
