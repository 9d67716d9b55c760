import TagWire.Layout.Parse

/-!
# Steps over tokens

Reading the head of a field goes forward through the tokens of a section, whether or not it finds a
fault.

- `Step.Shrinks`: a step leaves an end of the tokens.
- `Head.read_shorter`: a head takes at least one token, faulty or not.
-/

namespace TagWire.Layout

namespace Step

variable {α β : Type} {tokens rest : List Token}

theorem run_bind_ok {m : Step α} {f : α → Step β} {mid : List Token} {a : α}
    (h : m.run tokens = (.ok a, mid)) :
    (m >>= f).run tokens = (f a).run mid := by
  change (match m.run tokens with | (r, t) => (ExceptT.bindCont f r).run t) = _
  rw [h]
  rfl

theorem run_bind_error {m : Step α} {f : α → Step β} {mid : List Token} {e : Finding}
    (h : m.run tokens = (.error e, mid)) : (m >>= f).run tokens = (.error e, mid) := by
  change (match m.run tokens with | (r, t) => (ExceptT.bindCont f r).run t) = _
  rw [h]
  rfl

theorem bind_ok {m : Step α} {f : α → Step β} {b : β} (h : (m >>= f).run tokens = (.ok b, rest)) :
    ∃ a mid, m.run tokens = (.ok a, mid) ∧ (f a).run mid = (.ok b, rest) := by
  generalize first : m.run tokens = answer
  obtain ⟨_ | a, mid⟩ := answer
  · rw [run_bind_error first] at h
    cases h
  · exact ⟨a, mid, rfl, run_bind_ok first ▸ h⟩

theorem lift_ok {x : Except Finding α} {a : α} (h : (liftM x : Step α).run tokens = (.ok a, rest)) :
    x = .ok a ∧ rest = tokens := by
  cases x <;> cases h
  exact ⟨rfl, rfl⟩

theorem bind_ok_iff {m : Step α} {f : α → Step β} {b : β} :
    (m >>= f).run tokens = (.ok b, rest) ↔
      ∃ a mid, m.run tokens = (.ok a, mid) ∧ (f a).run mid = (.ok b, rest) := by
  constructor
  · exact bind_ok
  · rintro ⟨a, mid, first, further⟩
    rw [run_bind_ok first, further]

theorem lift_ok_iff {x : Except Finding α} {a : α} :
    (liftM x : Step α).run tokens = (.ok a, rest) ↔ x = .ok a ∧ rest = tokens := by
  constructor
  · exact lift_ok
  · rintro ⟨rfl, rfl⟩
    rfl

theorem pure_ok_iff {a b : α} :
    (pure a : Step α).run tokens = (.ok b, rest) ↔ b = a ∧ rest = tokens := by
  constructor
  · rintro ⟨⟩
    exact ⟨rfl, rfl⟩
  · rintro ⟨rfl, rfl⟩
    rfl

theorem throw_ok_iff {finding : Finding} {a : α} :
    (throw finding : Step α).run tokens = (.ok a, rest) ↔ False :=
  ⟨nofun, False.elim⟩

/-- The step leaves an end of the tokens. -/
def Shrinks (m : Step α) : Prop := ∀ tokens, (m.run tokens).2 <:+ tokens

theorem Shrinks.done (a : α) : Shrinks (pure a) := fun _ => List.suffix_refl _

theorem Shrinks.failed (finding : Finding) :
    Shrinks (throw finding : Step α) := fun _ => List.suffix_refl _

theorem Shrinks.state : Shrinks (get : Step (List Token)) := fun _ => List.suffix_refl _

theorem Shrinks.lift (x : Except Finding α) : Shrinks (liftM x : Step α) := by
  cases x <;> exact fun _ => List.suffix_refl _

theorem Shrinks.bind {m : Step α} {f : α → Step β} (first : Shrinks m) (rest : ∀ a, Shrinks (f a)) :
    Shrinks (m >>= f) := by
  intro tokens
  have shrunk := first tokens
  generalize h : m.run tokens = answer at shrunk
  obtain ⟨_ | a, mid⟩ := answer
  · rwa [run_bind_error h]
  · rw [run_bind_ok h]
    exact (rest a mid).trans shrunk

theorem Shrinks.map {m : Step α} (f : α → β) (step : Shrinks m) : Shrinks (f <$> m) := by
  rw [← bind_pure_comp]
  exact step.bind fun a => .done (f a)

end Step

namespace Head

open Step (Shrinks bind_ok lift_ok)

theorem shrinks_next (scope : Scope) (wanted : Wanted) : Shrinks (next scope wanted) := by
  intro tokens
  cases tokens with
  | nil => exact List.suffix_refl _
  | cons t rest => exact List.suffix_cons t rest

theorem next_ok {scope : Scope} {wanted : Wanted} {tokens rest : List Token} {t : Token}
    (h : (next scope wanted).run tokens = (.ok t, rest)) : tokens = t :: rest := by
  cases tokens <;> cases h
  rfl

theorem shrinks_placeholder (scope : Scope) : Shrinks (placeholder scope) := by
  intro tokens
  cases tokens with
  | nil => exact List.suffix_refl _
  | cons t rest =>
    simp only [placeholder, ExceptT.run]
    split
    · exact List.suffix_cons t rest
    · exact List.suffix_refl _

theorem shrinks_originFrom (start : List Token) : Shrinks (originFrom start) :=
  Shrinks.state.bind fun _ => .done _

theorem shrinks_conversion (start : List Token) (element : ElementType) :
    Shrinks (conversion start element) := by
  unfold conversion
  split
  · exact .done _
  · exact (shrinks_originFrom start).bind fun _ => .failed _

theorem shrinks_listLength (scope : Scope) : Shrinks (listLength scope) := by
  apply (shrinks_next _ _).bind
  intro t
  split
  · dsimp only
    split
    · exact .done _
    · exact .failed _
  · exact .failed _
  · exact .failed _

theorem shrinks_vectorLength (scope : Scope) : Shrinks (vectorLength scope) := by
  apply (shrinks_next _ _).bind
  intro t
  split
  · dsimp only
    split
    · exact .done _
    · exact .failed _
  · exact .done _
  · exact .failed _

theorem shrinks_readScalar (scope : Scope) (start : List Token) (use : Use) (t : Token) :
    Shrinks (readScalar scope start use t) := by
  refine (shrinks_placeholder scope).bind fun _ => (Shrinks.lift _).bind fun element =>
    (shrinks_conversion start element).bind fun conversion => ?_
  dsimp only
  split
  · exact (Shrinks.lift _).bind fun _ => (shrinks_originFrom start).bind fun _ => .done _
  · exact (shrinks_originFrom start).bind fun _ => .done _

theorem shrinks_readVector (scope : Scope) (start : List Token) (use : Use) (t : Token) :
    Shrinks (readVector scope start use t) := by
  refine (shrinks_next _ _).bind fun type => (shrinks_vectorLength scope).bind fun count => ?_
  have body : Shrinks (do
      let element ← elementType scope true type
      let conversion ← conversion start element
      refuseLoad use t
      return Head.whole
        (.data (unlessHidden use (Word.ofList (some element.kind) :: lengthWords count))
        ⟨count, element.kind, conversion, use, ← originFrom start⟩)) :=
    (Shrinks.lift _).bind fun element => (shrinks_conversion start element).bind fun _ =>
      (Shrinks.lift _).bind fun _ => (shrinks_originFrom start).bind fun _ => .done _
  dsimp only
  split
  · exact (shrinks_placeholder scope).bind fun _ => body
  · exact body

theorem shrinks_readItemVector (scope : Scope) (use : Use) (t : Token) :
    Shrinks (readItemVector scope use t) := by
  refine (shrinks_next _ _).bind fun type => (shrinks_listLength scope).bind fun n =>
    (Shrinks.lift _).bind fun element => ?_
  dsimp only
  split
  · exact (Shrinks.failed _).bind fun _ => (Shrinks.lift _).bind fun _ => .done _
  · exact (Shrinks.lift _).bind fun _ => .done _

theorem shrinks_readList (scope : Scope) (use : Use) (t : Token) :
    Shrinks (readList scope use t) := by
  refine (shrinks_listLength scope).bind fun n => (Shrinks.lift _).bind fun _ => ?_
  split
  · exact .failed _
  · exact .done _

theorem shrinks_readDerivation (scope : Scope) (start : List Token) :
    Shrinks (readDerivation scope start) := by
  apply (shrinks_next _ _).bind
  intro t
  cases Derivation.ofName? t.text with
  | some derivation => exact (shrinks_originFrom start).bind fun _ => .done _
  | none => exact .failed _

theorem shrinks_skipDirective (scope : Scope) (first : Token) :
    Shrinks (skipDirective scope first) := by
  unfold skipDirective
  split
  · exact (shrinks_next _ _).bind fun _ => .done _
  · exact .done _

theorem shrinks_useDirective (scope : Scope) (isHidden : Bool) (t : Token) :
    Shrinks (useDirective scope isHidden t) := by
  unfold useDirective
  split
  · exact (shrinks_next _ _).bind fun _ => .done _
  · cases isHidden with
    | true => exact fun _ => List.suffix_refl _
    | false =>
      rw [if_neg (by decide)]
      split
      · exact ((Shrinks.lift _).map some).bind fun _ => (shrinks_next _ _).bind fun _ => .done _
      · exact (Shrinks.done _).bind fun _ => (shrinks_next _ _).bind fun _ => .done _
  · exact .done _

/-- The reader of what is behind the directives of a field, by the keyword there. -/
def readBody (scope : Scope) (start : List Token) (use : Use) (t : Token) : Step Head :=
  match t.text with
  | "list" => readList scope use t
  | "vector" => readVector scope start use t
  | "item_vector" => readItemVector scope use t
  | _ => readScalar scope start use t

theorem shrinks_readBody (scope : Scope) (start : List Token) (use : Use) (t : Token) :
    Shrinks (readBody scope start use t) := by
  unfold readBody
  split
  · exact shrinks_readList scope use t
  · exact shrinks_readVector scope start use t
  · exact shrinks_readItemVector scope use t
  · exact shrinks_readScalar scope start use t

/-- A head takes at least one token, faulty or not. -/
theorem read_shorter (scope : Scope) {tokens : List Token} (some_left : tokens ≠ []) :
    ∃ first rest, tokens = first :: rest ∧ ((Head.read scope).run tokens).2 <:+ rest := by
  obtain ⟨first, rest, rfl⟩ := List.exists_cons_of_ne_nil some_left
  have taken : (next scope .field).run (first :: rest) = (.ok first, rest) := rfl
  have start : (get : Step (List Token)).run (first :: rest) =
    (.ok (first :: rest), first :: rest) := rfl
  refine ⟨first, rest, rfl, ?_⟩
  rw [Head.read, Step.run_bind_ok start, Step.run_bind_ok taken]
  split
  · exact shrinks_readDerivation scope _ rest
  · refine ((shrinks_skipDirective scope first).bind fun (isHidden, t) =>
      (shrinks_useDirective scope isHidden t).bind fun (use, t) => ?_) rest
    dsimp only
    split
    · exact (Shrinks.failed _).bind fun _ => shrinks_readBody scope _ use t
    · exact shrinks_readBody scope _ use t

end Head

end TagWire.Layout
