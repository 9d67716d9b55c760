import TagWire.Proofs.Layout.Quoting
import TagWire.Proofs.Layout.Respelling
import TagWire.Proofs.Layout.Steps

/-!
# Heads in two grammars

The head of a field is read from two grammars side by side. Where they have the same tokens, in other
places and with other separators between them, both readings take the same course: they come to the
same head, apart from what it quotes, or to a finding about the same token.

- `Token.SameWords`: the same tokens in two grammars.
- `Parallel.Mirrors`: steps that take the same course.
- `Parallel.mirrors_read`: the head of a field.
- `Head.read_finding`: what the finding of a head is about.
-/

namespace TagWire.Layout

namespace Token

/-- Tokens with the same texts. What is kept of a text quoted from tokens in a row is kept of it on
either side. -/
structure SameWords (quote : String → String) (tokens tokens' : List Token) : Prop where
  texts : tokens.map text = tokens'.map text
  quoted : ∀ i n, quote (spell ((tokens.drop i).take n)) = quote (spell ((tokens'.drop i).take n))

namespace SameWords

variable {quote : String → String} {tokens tokens' rest : List Token} {t : Token}

theorem length_eq (alike : SameWords quote tokens tokens') : tokens.length = tokens'.length := by
  simpa using congrArg List.length alike.texts

theorem drop (alike : SameWords quote tokens tokens') (k : Nat) :
    SameWords quote (tokens.drop k) (tokens'.drop k) where
  texts := by simp only [List.map_drop, alike.texts]
  quoted i n := by simpa only [List.drop_drop] using alike.quoted (k + i) n

theorem take (alike : SameWords quote tokens tokens') (k : Nat) :
    SameWords quote (tokens.take k) (tokens'.take k) where
  texts := by simp only [List.map_take, alike.texts]
  quoted i n := by
    simpa only [List.drop_take, List.take_take] using alike.quoted i (min n (k - i))

theorem nil (alike : SameWords quote [] tokens') : tokens' = [] :=
  List.length_eq_zero_iff.mp alike.length_eq.symm

theorem cons (alike : SameWords quote (t :: rest) tokens') :
    ∃ t' rest', tokens' = t' :: rest' ∧ t.text = t'.text ∧ SameWords quote rest rest' := by
  cases tokens' with
  | nil => cases alike.length_eq
  | cons t' rest' => exact ⟨t', rest', rfl, (List.cons.inj alike.texts).1, alike.drop 1⟩

theorem spell_eq (alike : SameWords quote tokens tokens') :
    quote (spell tokens) = quote (spell tokens') := by
  have quoted := alike.quoted 0 tokens.length
  rw [List.drop_zero, List.take_length, alike.length_eq] at quoted
  simpa using quoted

/-- Where nothing is quoted, only the texts matter. -/
theorem of_texts (texts : tokens.map text = tokens'.map text) :
    SameWords (fun _ => "") tokens tokens' :=
  ⟨texts, fun _ _ => rfl⟩

end SameWords

/-- Tokens spelled again are quoted as they were. -/
theorem Respelled.alike {tokens tokens' : List Token} (spelled : Respelled tokens tokens') :
    SameWords id tokens tokens' where
  texts := spelled.1
  quoted i n := by
    have parts (l : List Token) : l.take i ++ ((l.drop i).take n ++ (l.drop i).drop n) = l := by
      rw [List.take_append_drop, List.take_append_drop]
    have lengths := spelled.length_eq
    rw [← parts tokens, ← parts tokens'] at spelled
    have behind := (spelled.append (by simp [lengths])).2
    exact (behind.append (by simp [lengths])).1.spell_eq

end Token

/-- The head of a field apart from what it quotes. -/
def Head.quoting (quote : String → String) : Head → Head
  | whole f => whole (f.quoting quote)
  | opening isHidden words item length => opening isHidden words item length

/-- Tokens of two grammars from the beginning of a field on, the ends of their sections, and what the
surroundings of the field decide in both. -/
structure Parallel where
  quote : String → String
  left : List Token
  right : List Token
  leftStop : Nat
  rightStop : Nat
  item : Option (Kind × Bool)
  isHidden : Bool
  alike : Token.SameWords quote left right

namespace Parallel

open Head

variable (s : Parallel)

def here : Scope := ⟨s.leftStop, s.item, s.isHidden⟩

def there : Scope := ⟨s.rightStop, s.item, s.isHidden⟩

/-- Tokens in the same place, before the place `p`. -/
def Same (p : Nat) (t t' : Token) : Prop :=
  ∃ i < p, s.left[i]? = some t ∧ s.right[i]? = some t'

/-- Findings of the same kind, where the place `p` has been reached. They are about the same token,
which has been taken or comes next, or about the end, or about a size. -/
inductive Found (p : Nat) : Finding → Finding → Prop
  | token {i t t'} (reached : i ≤ p) (left : s.left[i]? = some t) (right : s.right[i]? = some t')
    (what : Fault) : Found p (t.fault what) (t'.fault what)
  | ended (nothing : s.left.drop p = []) (what : Fault) :
    Found p (.fault s.leftStop "" what) (.fault s.rightStop "" what)
  | refused {origin origin'} (same : s.quote origin = s.quote origin') (kind : Kind) (wire : Nat) :
    Found p (.noConversion origin kind wire) (.noConversion origin' kind wire)

variable {α β : Type}

/-- Answers that are related, or findings of the same kind. -/
inductive Agree (rel : α → α → Prop) (p : Nat) : Except Finding α → Except Finding α → Prop
  | ok {a a'} (same : rel a a') : Agree rel p (.ok a) (.ok a')
  | error {f f'} (found : s.Found p f f') : Agree rel p (.error f) (.error f')

/-- Steps that take the same course from the place `p` on: both come to the same place, with answers
that are related there. -/
def Mirrors (rel : Nat → α → α → Prop) (p : Nat) (m m' : Step α) : Prop :=
  ∃ q r r', p ≤ q ∧ m.run (s.left.drop p) = (r, s.left.drop q) ∧
    m'.run (s.right.drop p) = (r', s.right.drop q) ∧ s.Agree (rel q) q r r'

variable {s} {p : Nat} {t t' : Token}

theorem Same.text (same : s.Same p t t') : t.text = t'.text := by
  obtain ⟨i, -, left, right⟩ := same
  have texts := congrArg (·[i]?) s.alike.texts
  simpa [left, right] using texts

theorem Same.fault (same : s.Same p t t') (what : Fault) :
    s.Found p (t.fault what) (t'.fault what) := by
  obtain ⟨i, before, left, right⟩ := same
  exact .token (Nat.le_of_lt before) left right what

theorem Same.later {q : Nat} (same : s.Same p t t') (onward : p ≤ q) : s.Same q t t' := by
  obtain ⟨i, before, tokens⟩ := same
  exact ⟨i, Nat.lt_of_lt_of_le before onward, tokens⟩

namespace Mirrors

variable {rel : Nat → α → α → Prop} {rel' : Nat → β → β → Prop} {m m' : Step α}
  {f f' : α → Step β}

theorem done {a a' : α} (same : rel p a a') : s.Mirrors rel p (pure a) (pure a') :=
  ⟨p, _, _, Nat.le_refl p, rfl, rfl, .ok same⟩

theorem failed {finding finding' : Finding} (found : s.Found p finding finding') :
    s.Mirrors rel p (throw finding) (throw finding') :=
  ⟨p, _, _, Nat.le_refl p, rfl, rfl, .error found⟩

theorem lift {x x' : Except Finding α} (agree : s.Agree (rel p) p x x') :
    s.Mirrors rel p (liftM x) (liftM x') := by
  cases agree with
  | ok same => exact done same
  | error found => exact failed found

theorem bind (first : s.Mirrors rel p m m')
    (further : ∀ {q a a'}, p ≤ q → rel q a a' → s.Mirrors rel' q (f a) (f' a')) :
    s.Mirrors rel' p (m >>= f) (m' >>= f') := by
  obtain ⟨q, _, _, onward, run, run', agree⟩ := first
  cases agree with
  | error found =>
    exact ⟨q, _, _, onward, Step.run_bind_error run, Step.run_bind_error run', .error found⟩
  | ok same =>
    obtain ⟨q', r, r', onward', again, again', agree⟩ := further onward same
    exact ⟨q', r, r', Nat.le_trans onward onward', (Step.run_bind_ok run).trans again,
      (Step.run_bind_ok run').trans again', agree⟩

/-- Behind steps with the same answer. -/
theorem bind_same (first : s.Mirrors (fun _ => Eq) p m m')
    (further : ∀ {q} a, p ≤ q → s.Mirrors rel' q (f a) (f' a)) :
    s.Mirrors rel' p (m >>= f) (m' >>= f') :=
  first.bind fun onward same => same ▸ further _ onward

theorem ite {c : Prop} [Decidable c] {n n' : Step α} (yes : c → s.Mirrors rel p m m')
    (no : ¬ c → s.Mirrors rel p n n') :
    s.Mirrors rel p (if c then m else n) (if c then m' else n') := by
  by_cases holds : c
  · simpa [holds] using yes holds
  · simpa [holds] using no holds

end Mirrors

/-! ## The parts of a head -/

theorem place_of_cons {tokens rest : List Token} (left : tokens.drop p = t :: rest) :
    tokens[p]? = some t ∧ tokens.drop (p + 1) = rest := by
  constructor
  · rw [← List.head?_drop, left]
    rfl
  · rw [← List.tail_drop, left]
    rfl

variable (s) in
/-- Both sides are at their end, or go on with the same token. -/
theorem sides (p : Nat) : s.left.drop p = [] ∧ s.right.drop p = [] ∨
    ∃ t t', s.left.drop p = t :: s.left.drop (p + 1) ∧
      s.right.drop p = t' :: s.right.drop (p + 1) ∧ s.Same (p + 1) t t' := by
  have alike := s.alike.drop p
  cases left : s.left.drop p with
  | nil =>
    rw [left] at alike
    exact .inl ⟨rfl, alike.nil⟩
  | cons t rest =>
    rw [left] at alike
    obtain ⟨t', rest', right, -, -⟩ := alike.cons
    obtain ⟨left_place, rfl⟩ := place_of_cons left
    obtain ⟨right_place, rfl⟩ := place_of_cons right
    exact .inr ⟨t, t', rfl, right, p, Nat.lt_succ_self p, left_place, right_place⟩

theorem mirrors_next (wanted : Wanted) :
    s.Mirrors s.Same p (next s.here wanted) (next s.there wanted) := by
  rcases s.sides p with ⟨left, right⟩ | ⟨t, t', left, right, same⟩
  · refine ⟨p, .error _, .error _, Nat.le_refl p, ?_, ?_, .error (.ended left (.ended wanted))⟩
    · rw [left]
      rfl
    · rw [right]
      rfl
  · refine ⟨p + 1, .ok t, .ok t', Nat.le_succ p, ?_, ?_, .ok same⟩
    · rw [left]
      rfl
    · rw [right]
      rfl

theorem mirrors_placeholder :
    s.Mirrors (fun _ => Eq) p (placeholder s.here) (placeholder s.there) := by
  rcases s.sides p with ⟨left, right⟩ | ⟨t, t', left, right, same⟩
  · refine ⟨p, .error _, .error _, Nat.le_refl p, ?_, ?_, .error (.ended left (.ended .data))⟩
    · rw [left]
      rfl
    · rw [right]
      rfl
  · have lexemes : t.lexeme = t'.lexeme := Token.Respelled.lexeme_eq same.text
    by_cases wildcard : t.lexeme = .wildcard
    · refine ⟨p + 1, .ok (), .ok (), Nat.le_succ p, ?_, ?_, .ok rfl⟩
      · simp [left, placeholder, ExceptT.run, wildcard]
      · simp [right, placeholder, ExceptT.run, ← lexemes, wildcard]
    · -- the token stays, so the finding is about the place that is reached
      have next : s.Found p (t.fault .noData) (t'.fault .noData) :=
        .token (Nat.le_refl p) (place_of_cons left).1 (place_of_cons right).1 .noData
      refine ⟨p, .error _, .error _, Nat.le_refl p, ?_, ?_, .error next⟩
      · simp [left, placeholder, ExceptT.run, wildcard]
      · simp [right, placeholder, ExceptT.run, ← lexemes, wildcard]

/-- The text of the tokens taken so far. -/
theorem mirrors_originFrom :
    s.Mirrors (fun _ o o' => s.quote o = s.quote o') p (originFrom s.left)
      (originFrom s.right) := by
  refine ⟨p, _, _, Nat.le_refl p, rfl, rfl, .ok ?_⟩
  have quoted := s.alike.quoted 0 (s.left.length - (s.left.length - p))
  simpa [s.alike.length_eq] using quoted

theorem agree_namedType (same : s.Same p t t') (inVector : Bool) (word : String)
    (wire : Option Nat) : s.Agree Eq p (namedType s.here inVector t word wire)
      (namedType s.there inVector t' word wire) := by
  have items : s.there.item = s.here.item := rfl
  unfold namedType
  rw [items]
  split
  · split
    · exact .error (same.fault .vectorOfItems)
    · cases s.here.item with
      | some item => exact .ok rfl
      | none => exact .error (same.fault .strayItem)
  · cases Kind.ofKeyword? word with
    | some kind => exact .ok rfl
    | none => exact .error (same.fault .unknownType)

theorem agree_elementType (same : s.Same p t t') (inVector : Bool) :
    s.Agree Eq p (elementType s.here inVector t) (elementType s.there inVector t') := by
  unfold elementType
  rw [← Token.Respelled.lexeme_eq same.text, ← same.text]
  split
  · exact .error (same.fault .noType)
  · dsimp only
    cases (splitType t.text.toList).2 with
    | none => exact agree_namedType same inVector _ none
    | some size =>
      dsimp only
      cases wireSize? size with
      | some n => exact agree_namedType same inVector _ (some n)
      | none => exact .error (same.fault .badWireSize)

theorem agree_literal (same : s.Same p t t') (text : String) :
    s.Agree Eq p (literal t text) (literal t' text) := by
  unfold literal
  cases Value.parse text with
  | error error => exact .error (same.fault (.badLiteral error))
  | ok v =>
    dsimp only
    cases (v.get? 0).bind Value.asInt with
    | some i => exact .ok rfl
    | none => exact .error (same.fault .unfitLiteral)

theorem agree_refuseLoad (same : s.Same p t t') (use : Use) :
    s.Agree Eq p (refuseLoad use t) (refuseLoad use t') := by
  cases use with
  | loaded => exact .error (same.fault .unfitLoad)
  | exchanged | skipped | saved => exact .ok rfl

theorem mirrors_conversion (element : ElementType) :
    s.Mirrors (fun _ => Eq) p (conversion s.left element) (conversion s.right element) := by
  unfold conversion
  cases conversion? element.kind (!element.isUnsigned) element.wire with
  | some c => exact .done rfl
  | none => exact mirrors_originFrom.bind fun _ told => .failed (.refused told _ _)

theorem mirrors_vectorLength :
    s.Mirrors (fun _ => Eq) p (vectorLength s.here) (vectorLength s.there) := by
  refine (mirrors_next .length).bind fun {q t t'} _ same => ?_
  rw [← Token.Respelled.lexeme_eq same.text, ← same.text]
  cases t.lexeme with
  | length => exact .ite (fun _ => .done rfl) fun _ => .failed (same.fault .lengthOutOfRange)
  | wildcard => exact .done rfl
  | separator | save | load | keyword => exact .failed (same.fault .noLength)

theorem mirrors_listLength :
    s.Mirrors (fun _ => Eq) p (listLength s.here) (listLength s.there) := by
  refine (mirrors_next .length).bind fun {q t t'} _ same => ?_
  rw [← Token.Respelled.lexeme_eq same.text, ← same.text]
  cases t.lexeme with
  | length => exact .ite (fun _ => .done rfl) fun _ => .failed (same.fault .lengthOutOfRange)
  | wildcard => exact .failed (same.fault .openList)
  | separator | save | load | keyword => exact .failed (same.fault .noLength)

/-- Heads that are the same apart from what they quote. -/
def SameHead (s : Parallel) (_ : Nat) (head head' : Head) : Prop :=
  head.quoting s.quote = head'.quoting s.quote

/-- A piece of data that quotes the tokens taken so far. -/
theorem mirrors_data (words : List Word) (count : Count) (kind : Kind) (c : Conversion)
    (use : Use) :
    s.Mirrors s.SameHead p
      (do return .whole (.data words ⟨count, kind, c, use, ← originFrom s.left⟩))
      (do return .whole (.data words ⟨count, kind, c, use, ← originFrom s.right⟩)) :=
  mirrors_originFrom.bind fun _ told => .done <| by
    simp [SameHead, Head.quoting, Field.quoting, Payload.quoting, told]

theorem mirrors_readScalar (same : s.Same p t t') (use : Use) :
    s.Mirrors s.SameHead p (readScalar s.here s.left use t) (readScalar s.there s.right use t') := by
  refine mirrors_placeholder.bind_same fun _ onward => ?_
  have same := same.later onward
  refine (Mirrors.lift (agree_elementType same false)).bind_same fun element onward => ?_
  have same := same.later onward
  refine (mirrors_conversion element).bind_same fun c onward => ?_
  have same := same.later onward
  refine .ite (fun _ => ?_) fun _ => mirrors_data ..
  exact (Mirrors.lift (agree_refuseLoad same use)).bind_same fun _ _ => mirrors_data ..

theorem mirrors_readVector (same : s.Same p t t') (use : Use) :
    s.Mirrors s.SameHead p (readVector s.here s.left use t) (readVector s.there s.right use t') := by
  refine (mirrors_next .elementType).bind fun {_ type type'} onward sameType => ?_
  have same := same.later onward
  refine mirrors_vectorLength.bind_same fun count onward => ?_
  have sameType := sameType.later onward
  have same := same.later onward
  have body {q : Nat} (same : s.Same q t t') (sameType : s.Same q type type') :
      s.Mirrors s.SameHead q
        (do
          let element ← elementType s.here true type
          let conversion ← conversion s.left element
          refuseLoad use t
          return Head.whole
            (.data (unlessHidden use (Word.ofList (some element.kind) :: lengthWords count))
            ⟨count, element.kind, conversion, use, ← originFrom s.left⟩))
        (do
          let element ← elementType s.there true type'
          let conversion ← conversion s.right element
          refuseLoad use t'
          return Head.whole
            (.data (unlessHidden use (Word.ofList (some element.kind) :: lengthWords count))
            ⟨count, element.kind, conversion, use, ← originFrom s.right⟩)) := by
    refine (Mirrors.lift (agree_elementType sameType true)).bind_same fun element onward => ?_
    have same := same.later onward
    refine (mirrors_conversion element).bind_same fun c onward => ?_
    have same := same.later onward
    exact (Mirrors.lift (agree_refuseLoad same use)).bind_same fun _ _ => mirrors_data ..
  refine .ite (fun _ => ?_) fun _ => body same sameType
  exact mirrors_placeholder.bind_same fun _ onward =>
    body (same.later onward) (sameType.later onward)

theorem mirrors_readItemVector (same : s.Same p t t') (use : Use) :
    s.Mirrors s.SameHead p (readItemVector s.here use t) (readItemVector s.there use t') := by
  refine (mirrors_next .elementType).bind fun {_ type type'} onward sameType => ?_
  have same := same.later onward
  refine mirrors_listLength.bind_same fun n onward => ?_
  have sameType := sameType.later onward
  have same := same.later onward
  refine (Mirrors.lift (agree_elementType sameType true)).bind_same fun element onward => ?_
  have sameType := sameType.later onward
  have same := same.later onward
  refine .ite (fun _ => ?_) fun _ => ?_
  · exact (Mirrors.failed (sameType.fault .sizedItemVector) :
      s.Mirrors (fun _ => Eq) _ _ _).bind_same fun _ onward =>
        (Mirrors.lift (agree_refuseLoad (same.later onward) use)).bind_same fun _ _ => .done rfl
  · exact (Mirrors.lift (agree_refuseLoad same use)).bind_same fun _ _ => .done rfl

theorem mirrors_readList (same : s.Same p t t') (use : Use) :
    s.Mirrors s.SameHead p (readList s.here use t) (readList s.there use t') := by
  refine mirrors_listLength.bind_same fun n onward => ?_
  have same := same.later onward
  refine (Mirrors.lift (agree_refuseLoad same use)).bind_same fun _ onward => ?_
  have same := same.later onward
  cases use with
  | saved => exact .failed (same.fault .savedList)
  | exchanged | skipped | loaded => exact .done rfl

theorem mirrors_readDerivation :
    s.Mirrors s.SameHead p (readDerivation s.here s.left) (readDerivation s.there s.right) := by
  refine (mirrors_next .derivation).bind fun {q t t'} _ same => ?_
  rw [← same.text]
  cases Derivation.ofName? t.text with
  | none => exact .failed (same.fault .unknownDerivation)
  | some what =>
    exact mirrors_originFrom.bind fun _ told => .done <| by
      simp [SameHead, Head.quoting, Field.quoting, told]

/-- The same answer of a directive, with the same token behind it. -/
def SameUse (s : Parallel) (p : Nat) (found found' : α × Token) : Prop :=
  found.1 = found'.1 ∧ s.Same p found.2 found'.2

theorem mirrors_skipDirective (same : s.Same p t t') :
    s.Mirrors s.SameUse p (skipDirective s.here t) (skipDirective s.there t') := by
  unfold skipDirective
  rw [← Token.Respelled.isWord_eq same.text]
  refine .ite (fun _ => ?_) fun _ => .done ⟨rfl, same⟩
  exact (mirrors_next .typeAfterSkip).bind fun _ same => .done ⟨rfl, same⟩

theorem mirrors_useDirective (same : s.Same p t t') (isHidden : Bool) :
    s.Mirrors s.SameUse p (useDirective s.here isHidden t) (useDirective s.there isHidden t') := by
  have names : t'.name = t.name := by rw [Token.name, Token.name, same.text]
  unfold useDirective
  rw [← Token.Respelled.lexeme_eq same.text, names]
  cases t.lexeme with
  | save => exact (mirrors_next .typeAfterSave).bind fun _ same => .done ⟨rfl, same⟩
  | load =>
    have behind {q : Nat} (value : Option Int64) :
        s.Mirrors s.SameUse q
          (do return (Use.loaded t.name value, ← next s.here .typeAfterLoad))
          (do return (Use.loaded t.name value, ← next s.there .typeAfterLoad)) :=
      (mirrors_next .typeAfterLoad).bind fun _ same => .done ⟨rfl, same⟩
    cases isHidden with
    | true => exact ⟨p, _, _, Nat.le_refl p, rfl, rfl, .error (same.fault .skippedLoad)⟩
    | false =>
      dsimp only
      rw [if_neg (by decide), if_neg (by decide)]
      split
      · refine Mirrors.bind_same ?_ fun value _ => behind value
        simp only [← bind_pure_comp]
        exact (Mirrors.lift (agree_literal same _)).bind_same fun _ _ => .done rfl
      · exact (Mirrors.done rfl : s.Mirrors (fun _ => Eq) _ _ _).bind_same fun value _ => behind value
  | separator | wildcard | length | keyword => exact .done ⟨rfl, same⟩

/-- A head behind its directives. -/
theorem mirrors_body (same : s.Same p t t') (use : Use) :
    s.Mirrors s.SameHead p
      (readBody s.here s.left use t) (readBody s.there s.right use t') := by
  unfold readBody
  rw [← same.text]
  split
  · exact mirrors_readList same use
  · exact mirrors_readVector same use
  · exact mirrors_readItemVector same use
  · exact mirrors_readScalar same use

variable (s) in
/-- The head of a field. -/
theorem mirrors_read : s.Mirrors s.SameHead 0 (Head.read s.here) (Head.read s.there) := by
  have started : s.Mirrors (fun p a a' => p = 0 ∧ a = s.left ∧ a' = s.right) 0 get get :=
    ⟨0, _, _, Nat.le_refl 0, rfl, rfl, .ok ⟨rfl, rfl, rfl⟩⟩
  refine started.bind ?_
  rintro _ _ _ - ⟨rfl, rfl, rfl⟩
  refine (mirrors_next .field).bind fun {_ first first'} _ same => ?_
  rw [← Token.Respelled.isWord_eq same.text]
  refine .ite (fun _ => mirrors_readDerivation) fun _ => ?_
  refine (mirrors_skipDirective same).bind ?_
  rintro _ ⟨isHidden, t⟩ ⟨_, t'⟩ - ⟨⟨⟩, same⟩
  refine (mirrors_useDirective same isHidden).bind ?_
  rintro _ ⟨use, t⟩ ⟨_, t'⟩ - ⟨⟨⟩, same⟩
  dsimp only at same ⊢
  rw [← Token.Respelled.lexeme_eq same.text]
  refine .ite (fun _ => ?_) fun _ => mirrors_body same use
  exact (Mirrors.failed (same.fault .noType) : s.Mirrors (fun _ => Eq) _ _ _).bind_same
    fun _ onward => mirrors_body (same.later onward) use

/-- A head beside itself. -/
def alone (scope : Scope) (tokens : List Token) : Parallel :=
  ⟨id, tokens, tokens, scope.stop, scope.stop, scope.item, scope.isHidden, ⟨rfl, fun _ _ => rfl⟩⟩

end Parallel

/-- The finding of a head is about a token that it has taken or that comes next, about the end, or
about a size. -/
theorem Head.read_finding {scope : Scope} {tokens rest : List Token} {finding : Finding}
    (read : (Head.read scope).run tokens = (.error finding, rest)) :
    ∃ p finding', rest = tokens.drop p ∧
      (Parallel.alone scope tokens).Found p finding finding' := by
  obtain ⟨p, r, r', -, left, -, agree⟩ := (Parallel.alone scope tokens).mirrors_read
  obtain ⟨rfl, rfl⟩ := Prod.mk.inj (read.symm.trans left)
  cases agree with
  | @error _ finding' found => exact ⟨p, finding', rfl, found⟩

end TagWire.Layout
