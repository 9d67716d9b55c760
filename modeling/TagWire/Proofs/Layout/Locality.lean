import TagWire.Proofs.Layout.Respelling
import TagWire.Proofs.Layout.Steps

/-!
# Heads in other places

The head of a field goes by the tokens it takes. Spelled again, in another place and with other
tokens behind them, they give the same head; its text is the one they have.

- `Step.Echoes`: a step that goes by what it takes, and by what has been taken before it.
- `Head.read_echoes`: the head of a field.
-/

namespace TagWire.Layout

open Token (Respelled)

namespace Step

variable {α β κ ι : Type}

/-- Steps of a head that began at the tokens given. Where the first step comes to an end, so does
the second one, over tokens spelled alike and whatever stands behind them. Their answers have the
same `key`. -/
def Echoes (key : α → κ) (m m' : List Token → Step α) : Prop :=
  ∀ before tokens a rest, (m (before ++ tokens)).run tokens = (.ok a, rest) →
    ∃ taken, tokens = taken ++ rest ∧
      ∀ before' taken' rest', before.length = before'.length →
        Respelled (before ++ taken) (before' ++ taken') →
        ∃ a', key a = key a' ∧
          (m' (before' ++ (taken' ++ rest'))).run (taken' ++ rest') = (.ok a', rest')

namespace Echoes

variable {key : α → κ} {key' : β → ι} {m m' : List Token → Step α}

/-- A step that takes nothing. -/
theorem stay {a a' : α} (same : key a = key a')
    (first : ∀ before tokens b rest, (m (before ++ tokens)).run tokens = (.ok b, rest) →
      b = a ∧ rest = tokens)
    (second : ∀ start tokens, (m' start).run tokens = (.ok a', tokens)) : Echoes key m m' := by
  intro before tokens b rest h
  obtain ⟨rfl, rfl⟩ := first before tokens b rest h
  refine ⟨[], rfl, fun before' taken' rest' length spelled => ⟨a', same, ?_⟩⟩
  obtain rfl := (spelled.append length).2.nil
  exact second _ _

theorem done {a a' : α} (same : key a = key a') :
    Echoes key (fun _ => pure a) (fun _ => pure a') :=
  stay same (by rintro _ _ _ _ ⟨⟩; exact ⟨rfl, rfl⟩) fun _ _ => rfl

theorem failed (finding : Finding) : Echoes key (fun _ => throw finding) m' := by
  rintro _ _ _ _ ⟨⟩

theorem lift {x x' : Except Finding α} (same : ∀ {a}, x = .ok a → x' = .ok a) :
    Echoes key (fun _ => liftM x) (fun _ => liftM x') := by
  cases x with
  | error finding => rintro _ _ _ _ ⟨⟩
  | ok a =>
    rw [same rfl]
    exact stay rfl (by rintro _ _ _ _ ⟨⟩; exact ⟨rfl, rfl⟩) fun _ _ => rfl

theorem bind {f f' : α → List Token → Step β} (first : Echoes key m m')
    (further : ∀ {a a'}, key a = key a' → Echoes key' (f a) (f' a')) :
    Echoes key' (fun start => m start >>= fun a => f a start)
      (fun start => m' start >>= fun a => f' a start) := by
  intro before tokens b rest h
  obtain ⟨a, mid, took, h⟩ := bind_ok h
  obtain ⟨taken, rfl, again⟩ := first before tokens a mid took
  rw [← List.append_assoc] at h
  obtain ⟨more, rfl, -⟩ := further rfl (before ++ taken) mid b rest h
  refine ⟨taken ++ more, (List.append_assoc ..).symm, fun before' taken' rest' length spelled => ?_⟩
  obtain ⟨taken', more', rfl, lengths, -, -⟩ := (spelled.append length).2.split
  rw [← List.append_assoc, ← List.append_assoc] at spelled
  have lengths' : (before ++ taken).length = (before' ++ taken').length := by
    rw [List.length_append, List.length_append, length, lengths]
  obtain ⟨a', same, took'⟩ :=
    again before' taken' (more' ++ rest') length (spelled.append lengths').1
  obtain ⟨more₂, more_eq, again'⟩ := further same (before ++ taken) _ b rest h
  obtain rfl := List.append_cancel_right more_eq
  obtain ⟨b', same', took''⟩ := again' (before' ++ taken') more' rest' lengths' spelled
  refine ⟨b', same', ?_⟩
  rw [List.append_assoc taken', run_bind_ok took']
  rwa [List.append_assoc before'] at took''

/-- Behind a step with the same answer. -/
theorem bind_same {m m' : List Token → Step α} {f f' : α → List Token → Step β}
    (first : Echoes id m m') (further : ∀ a, Echoes key' (f a) (f' a)) :
    Echoes key' (fun start => m start >>= fun a => f a start)
      (fun start => m' start >>= fun a => f' a start) :=
  first.bind fun {a a'} (same : a = a') => same ▸ further a

theorem map {m m' : List Token → Step α} (first : Echoes id m m') (f : α → β) :
    Echoes id (fun start => f <$> m start) (fun start => f <$> m' start) := by
  simp only [← bind_pure_comp]
  exact first.bind_same fun _ => done rfl

/-- A head that begins at the place reached. -/
theorem begin {m m' : List Token → Step α} (echoes : Echoes id m m') {tokens rest : List Token}
    {a : α} (h : (get >>= m).run tokens = (.ok a, rest)) :
    ∃ taken, tokens = taken ++ rest ∧ ∀ taken' rest', Respelled taken taken' →
      (get >>= m').run (taken' ++ rest') = (.ok a, rest') := by
  obtain ⟨start, _, got, h⟩ := bind_ok h
  cases got
  obtain ⟨taken, rfl, again⟩ := echoes [] _ a rest h
  refine ⟨taken, rfl, fun taken' rest' spelled => ?_⟩
  obtain ⟨_, rfl, took⟩ := again [] taken' rest' rfl spelled
  exact took

end Echoes

end Step

namespace Head

open Step (Echoes)

variable {scope scope' : Scope} {t t' : Token}

theorem echoes_next (wanted : Wanted) :
    Echoes Token.text (fun _ => next scope wanted) (fun _ => next scope' wanted) := by
  intro before tokens t rest h
  obtain rfl := next_ok h
  refine ⟨[t], rfl, fun before' taken' rest' length spelled => ?_⟩
  obtain ⟨t', _, rfl, same, one⟩ := (spelled.append length).2.cons
  obtain rfl := one.nil
  exact ⟨t', same, rfl⟩

theorem echoes_placeholder :
    Echoes id (fun _ => placeholder scope) (fun _ => placeholder scope') := by
  intro before tokens _ rest h
  cases tokens with
  | nil => cases h
  | cons t tokens =>
    simp only [placeholder, ExceptT.run] at h
    split at h
    · rename_i wildcard
      cases h
      refine ⟨[t], rfl, fun before' taken' rest' length spelled => ⟨(), rfl, ?_⟩⟩
      obtain ⟨t', _, rfl, same, one⟩ := (spelled.append length).2.cons
      obtain rfl := one.nil
      rw [Respelled.lexeme_eq same] at wildcard
      exact if_pos wildcard
    · cases h

/-- The text of the tokens taken so far. -/
theorem echoes_originFrom : Echoes id originFrom originFrom := by
  intro before tokens origin rest h
  cases h
  refine ⟨[], rfl, fun before' taken' rest' length spelled => ?_⟩
  obtain rfl := (spelled.append length).2.nil
  rw [List.append_nil, List.append_nil] at spelled
  have origin_eq (before tokens : List Token) : (originFrom (before ++ tokens)).run tokens =
      (.ok (Token.spell before), tokens) := by
    change (Except.ok (Token.spell ((before ++ tokens).take _)), tokens) = _
    rw [List.length_append, Nat.add_sub_cancel, List.take_left]
  refine ⟨_, ?_, origin_eq before' rest'⟩
  rw [← spelled.spell_eq]
  simp

theorem namedType_echoes (item : scope.item = scope'.item) {inVector : Bool} {word : String}
    {wire : Option Nat} {element : ElementType}
    (h : namedType scope inVector t word wire = .ok element) :
    namedType scope' inVector t' word wire = .ok element := by
  unfold namedType at h ⊢
  rw [← item]
  split at h
  · rename_i is_item
    rw [if_pos is_item]
    split at h
    · cases h
    · rename_i outside
      rw [if_neg outside]
      split at h
      · exact h
      · cases h
  · rename_i no_item
    rw [if_neg no_item]
    split at h
    · exact h
    · cases h

theorem elementType_echoes (item : scope.item = scope'.item) (same : t.text = t'.text)
    {inVector : Bool} {element : ElementType} (h : elementType scope inVector t = .ok element) :
    elementType scope' inVector t' = .ok element := by
  unfold elementType at h ⊢
  rw [← Respelled.lexeme_eq same, ← same]
  split at h
  · cases h
  · rename_i keyword
    rw [if_neg keyword]
    dsimp only at h ⊢
    split at h
    · exact namedType_echoes item h
    · split at h
      · exact namedType_echoes item h
      · cases h

theorem literal_echoes {text : String} {i : Int64} (h : literal t text = .ok i) :
    literal t' text = .ok i := by
  unfold literal at h ⊢
  split at h
  · cases h
  · split at h
    · exact h
    · cases h

theorem refuseLoad_echoes {use : Use} (h : refuseLoad use t = .ok ()) :
    refuseLoad use t' = .ok () := by
  cases use <;> first | rfl | cases h

theorem echoes_conversion (element : ElementType) :
    Echoes id (fun start => conversion start element) (fun start => conversion start element) := by
  unfold conversion
  cases conversion? element.kind (!element.isUnsigned) element.wire with
  | some c => exact .done rfl
  | none => exact echoes_originFrom.bind fun _ => .failed _

theorem echoes_vectorLength :
    Echoes id (fun _ => vectorLength scope) (fun _ => vectorLength scope') := by
  refine (echoes_next .length).bind fun {t t'} same => ?_
  rw [← Respelled.lexeme_eq same, ← same]
  split
  · dsimp only
    split
    · exact .done rfl
    · exact .failed _
  · exact .done rfl
  · exact .failed _

theorem echoes_listLength :
    Echoes id (fun _ => listLength scope) (fun _ => listLength scope') := by
  refine (echoes_next .length).bind fun {t t'} same => ?_
  rw [← Respelled.lexeme_eq same, ← same]
  split
  · dsimp only
    split
    · exact .done rfl
    · exact .failed _
  · exact .failed _
  · exact .failed _

theorem echoes_readScalar (item : scope.item = scope'.item) (same : t.text = t'.text) (use : Use) :
    Echoes id (fun start => readScalar scope start use t)
      (fun start => readScalar scope' start use t') := by
  refine echoes_placeholder.bind_same fun _ =>
    (Echoes.lift (elementType_echoes item same)).bind_same fun element =>
      (echoes_conversion element).bind_same fun c => ?_
  dsimp only
  split
  · exact (Echoes.lift refuseLoad_echoes).bind_same fun _ =>
      echoes_originFrom.bind_same fun _ => .done rfl
  · exact echoes_originFrom.bind_same fun _ => .done rfl

theorem echoes_readVector (item : scope.item = scope'.item) (use : Use) :
    Echoes id (fun start => readVector scope start use t)
      (fun start => readVector scope' start use t') := by
  refine (echoes_next .elementType).bind fun {type type'} same =>
    echoes_vectorLength.bind_same fun count => ?_
  have body : Echoes id
      (fun start => do
        let element ← elementType scope true type
        let conversion ← conversion start element
        refuseLoad use t
        return Head.whole
          (.data (unlessHidden use (Word.ofList (some element.kind) :: lengthWords count))
          ⟨count, element.kind, conversion, use, ← originFrom start⟩))
      (fun start => do
        let element ← elementType scope' true type'
        let conversion ← conversion start element
        refuseLoad use t'
        return Head.whole
          (.data (unlessHidden use (Word.ofList (some element.kind) :: lengthWords count))
          ⟨count, element.kind, conversion, use, ← originFrom start⟩)) :=
    (Echoes.lift (elementType_echoes item same)).bind_same fun element =>
      (echoes_conversion element).bind_same fun _ =>
        (Echoes.lift refuseLoad_echoes).bind_same fun _ =>
          echoes_originFrom.bind_same fun _ => .done rfl
  dsimp only
  split
  · exact echoes_placeholder.bind_same fun _ => body
  · exact body

theorem echoes_readItemVector (item : scope.item = scope'.item) (use : Use) :
    Echoes id (fun _ => readItemVector scope use t) (fun _ => readItemVector scope' use t') := by
  refine (echoes_next .elementType).bind fun {type type'} same =>
    echoes_listLength.bind_same fun n =>
      (Echoes.lift (elementType_echoes item same)).bind_same fun element => ?_
  dsimp only
  split
  · exact (Echoes.failed _ : Echoes id _ _).bind_same fun _ =>
      (Echoes.lift refuseLoad_echoes).bind_same fun _ => .done rfl
  · exact (Echoes.lift refuseLoad_echoes).bind_same fun _ => .done rfl

theorem echoes_readList (use : Use) :
    Echoes id (fun _ => readList scope use t) (fun _ => readList scope' use t') := by
  refine echoes_listLength.bind_same fun n =>
    (Echoes.lift refuseLoad_echoes).bind_same fun _ => ?_
  cases use with
  | saved name => exact .failed _
  | exchanged | skipped | loaded => exact .done rfl

theorem echoes_readDerivation :
    Echoes id (fun start => readDerivation scope start)
      (fun start => readDerivation scope' start) := by
  refine (echoes_next .derivation).bind fun {t t'} same => ?_
  rw [← same]
  cases Derivation.ofName? t.text with
  | some derivation => exact echoes_originFrom.bind_same fun _ => .done rfl
  | none => exact .failed _

/-- The answer of a directive, with the token behind it. -/
theorem echoes_answer {α : Type} (answer : α) (same : t.text = t'.text) :
    Echoes (Prod.map id Token.text) (fun _ => pure (answer, t)) (fun _ => pure (answer, t')) :=
  .done (Prod.ext rfl same)

theorem echoes_skipDirective (hidden : scope.isHidden = scope'.isHidden)
    (same : t.text = t'.text) :
    Echoes (Prod.map id Token.text) (fun _ => skipDirective scope t)
      (fun _ => skipDirective scope' t') := by
  unfold skipDirective
  rw [← Respelled.isWord_eq same, hidden]
  split
  · exact (echoes_next .typeAfterSkip).bind fun same => echoes_answer true same
  · exact echoes_answer scope'.isHidden same

theorem echoes_useDirective (isHidden : Bool) (same : t.text = t'.text) :
    Echoes (Prod.map id Token.text) (fun _ => useDirective scope isHidden t)
      (fun _ => useDirective scope' isHidden t') := by
  have name : t.name = t'.name := by rw [Token.name, Token.name, same]
  unfold useDirective
  rw [← Respelled.lexeme_eq same, ← name]
  split
  · exact (echoes_next .typeAfterSave).bind fun same => echoes_answer _ same
  · cases isHidden with
    | true => exact Echoes.failed _
    | false =>
      rw [if_neg (by decide), if_neg (by decide)]
      split
      · exact ((Echoes.lift literal_echoes).map some).bind_same fun value =>
          (echoes_next .typeAfterLoad).bind fun same => echoes_answer _ same
      · exact (Echoes.done rfl : Echoes id _ _).bind_same fun value =>
          (echoes_next .typeAfterLoad).bind fun same => echoes_answer _ same
  · exact echoes_answer _ same

/-- A head behind its directives. -/
theorem echoes_body (item : scope.item = scope'.item) (same : t.text = t'.text) (use : Use) :
    Echoes id
      (fun start => readBody scope start use t) (fun start => readBody scope' start use t') := by
  unfold readBody
  rw [← same]
  split
  · exact echoes_readList use
  · exact echoes_readVector item use
  · exact echoes_readItemVector item use
  · exact echoes_readScalar item same use

/-- Where a head is read, the tokens it takes give the same head in any other place. -/
theorem read_echoes (item : scope.item = scope'.item) (hidden : scope.isHidden = scope'.isHidden)
    {tokens rest : List Token} {head : Head} (h : (Head.read scope).run tokens = (.ok head, rest)) :
    ∃ taken, tokens = taken ++ rest ∧ ∀ taken' rest', Respelled taken taken' →
      (Head.read scope').run (taken' ++ rest') = (.ok head, rest') := by
  refine Echoes.begin ((echoes_next .field).bind fun {first first'} same => ?_) h
  rw [← Respelled.isWord_eq same]
  split
  · exact echoes_readDerivation
  · refine (echoes_skipDirective hidden same).bind ?_
    rintro ⟨isHidden, t⟩ ⟨isHidden', t'⟩ answers
    obtain ⟨rfl, same⟩ : isHidden = isHidden' ∧ t.text = t'.text := Prod.mk.inj answers
    refine (echoes_useDirective isHidden same).bind ?_
    rintro ⟨use, t⟩ ⟨use', t'⟩ answers
    obtain ⟨rfl, same⟩ : use = use' ∧ t.text = t'.text := Prod.mk.inj answers
    dsimp only
    rw [← Respelled.lexeme_eq same]
    split
    · exact (Echoes.failed _ : Echoes id _ _).bind_same fun _ => echoes_body item same use
    · exact echoes_body item same use

end Head

end TagWire.Layout
