import TagWire.Proofs.Encoder.Emission
import TagWire.Proofs.Tagged.Encoding

/-!
# The strict walk over fields

The gaps of a layout check the tag words of several lists together. A walk over gaps comes to the
same end as a walk that checks the tag words of each field where the field stands.

- `Strict.field`, `Strict.fields`: the walk over a field, and over several.
- `Strict.layOut_agrees`: a walk over gaps is a walk over fields.
- `Strict.head_walked`, `Strict.length_walked`: what an encoded list is that a walk gets past.
-/

namespace TagWire

namespace Strict

variable {α β : Type}

/-- The walks come to the same end from the same start, if they come to one. -/
def Agree (p q : Strict α) : Prop := ∀ t a t', p.run t = .ok (a, t') ↔ q.run t = .ok (a, t')

namespace Agree

theorem refl (p : Strict α) : Agree p p := fun _ _ _ => Iff.rfl

theorem of_eq {p q : Strict α} (h : p = q) : Agree p q := h ▸ refl p

theorem trans {p q r : Strict α} (first : Agree p q) (further : Agree q r) : Agree p r :=
  fun t a t' => (first t a t').trans (further t a t')

theorem failed (e e' : Error) : Agree (throw e : Strict α) (throw e') := by
  intro t a t'
  constructor <;> nofun

theorem bind {p p' : Strict α} {q q' : α → Strict β} (first : Agree p p')
    (further : ∀ a, Agree (q a) (q' a)) :
    Agree (p >>= q) (p' >>= q') := by
  intro t b t''
  constructor
  · intro run
    obtain ⟨a, t', run, run'⟩ := bind_ok run
    rw [run_bind_ok ((first t a t').mp run)]
    exact (further a t' b t'').mp run'
  · intro run
    obtain ⟨a, t', run, run'⟩ := bind_ok run
    rw [run_bind_ok ((first t a t').mpr run)]
    exact (further a t' b t'').mpr run'

end Agree

/-- A walk that agrees with another puts out the same. -/
theorem Puts.of_agree {p q : Strict α} (agree : Agree p q) {message out : Bytes} {a : α}
    (puts : Puts q message out a) : Puts p message out a := by
  intro t rest settled split
  obtain ⟨t', run, after⟩ := puts t rest settled split
  exact ⟨t', (agree t a t').mpr run, after⟩

/-- The text that stands for a gap matters to errors only. -/
theorem agree_settle (origin origin' : String) (length : Word) :
    Agree (settle origin length) (settle origin' length) := by
  apply (Agree.refl get).bind
  intro t
  cases t.deferred with
  | none => exact .refl _
  | some d =>
    apply (Agree.refl clear).bind
    intro _
    split
    · exact .failed _ _
    · exact .refl _

theorem agree_checkLength (origin origin' : String) (expected : Word) :
    Agree (checkLength origin expected) (checkLength origin' expected) := by
  apply (Agree.refl (takeWord false)).bind
  intro received
  apply (agree_settle origin origin' received).bind
  intro _
  split
  · exact .failed _ _
  · exact .refl _

theorem agree_checkTag (origin origin' : String) (expected : Word) :
    Agree (checkTag origin expected) (checkTag origin' expected) := by
  apply (Agree.refl (takeWord false)).bind
  intro received
  split
  · exact .refl _
  · split
    · exact .refl _
    · exact .failed _ _

theorem agree_checkWords (origin origin' : String) (words : List Word) :
    Agree (checkWords origin words) (checkWords origin' words) := by
  induction words using checkWords.induct with
  | case1 => exact .refl _
  | case2 tag => exact agree_checkTag origin origin' tag
  | case3 tag next rest behind following =>
    apply (agree_checkTag origin origin' tag).bind
    intro _
    split
    · exact (agree_checkLength origin origin' next).bind fun _ => behind
    · exact following

end Strict

/-- Tag words of lists with the words that tell their lengths. -/
inductive Word.Heads : List Word → Prop
  | nil : Heads []
  | cons (shared : Option Kind) (length : Word) {words : List Word} (further : Heads words) :
      Heads (Word.ofList shared :: length :: words)

theorem Word.Heads.append {words others : List Word} (first : Heads words)
    (further : Heads others) :
    Heads (words ++ others) := by
  induction first with
  | nil => exact further
  | cons shared length _ ih => exact .cons shared length ih

namespace Strict

open Word (Heads)

theorem bind_unit (p : Strict Unit) : (p >>= fun _ => pure ()) = p := bind_pure_unit

theorem bind_assoc (p : Strict Unit) (q r : Unit → Strict Unit) :
    (p >>= q >>= r) = (p >>= fun a => q a >>= r) :=
  LawfulMonad.bind_assoc p q r

/-- Tag words behind those of lists are checked on their own. -/
theorem checkWords_append (origin : String) {waiting : List Word} (heads : Heads waiting)
    (words : List Word) :
    checkWords origin (waiting ++ words) =
      (do checkWords origin waiting; checkWords origin words) := by
  induction heads with
  | nil => rfl
  | cons shared length further ih =>
    have list : (Word.ofList shared).isList = true := (Word.ofList_announces shared).2.1
    simp only [List.cons_append, checkWords, list, if_true, ih, bind_assoc]

theorem passGaps_single (l : Layout) (g : Gap) :
    passGaps l [g] = passGap l g := bind_unit (passGap l g)

theorem passGaps_append (l : Layout) (first further : List Gap) :
    passGaps l (first ++ further) = (do passGaps l first; passGaps l further) := by
  induction first with
  | nil => rfl
  | cons g rest ih => simp only [List.cons_append, passGaps, ih, bind_assoc]

mutual

/-- The walk over a field of a message, with its tag words where it stands. -/
def field (l : Layout) : Field → Strict Unit
  | .derive .. => pure ()
  | .data words p => do
    checkWords p.origin words
    passPayload (l.originOf ⟨words, .data p⟩) ⟨words, .data p⟩ p
  | .group _ words inner => do
    checkWords l.grammar words
    fields l inner

def fields (l : Layout) : List Field → Strict Unit
  | [] => pure ()
  | f :: rest => do
    field l f
    fields l rest

end

variable {l : Layout} {item : Option Kind}

theorem fields_append (first rest : List Field) :
    fields l (first ++ rest) = (do fields l first; fields l rest) := by
  induction first with
  | nil => rfl
  | cons f first ih => simp only [List.cons_append, fields, ih, bind_assoc]

/-- Gaps with the words that wait behind them, and fields with the words that waited before them. -/
def Unfolds (l : Layout) (gaps : List Gap × List Word) (waiting : List Word) (walk : Strict Unit) :
    Prop :=
  Heads gaps.2 ∧ ∀ origin origin',
    Agree (do passGaps l gaps.1; checkWords origin gaps.2) (do checkWords origin' waiting; walk)

theorem unfolds_allGaps {fs : List Field}
    (each : ∀ f ∈ fs, ∀ {waiting}, Heads waiting → Unfolds l (f.gaps waiting) waiting (field l f))
    {waiting : List Word} (heads : Heads waiting) :
    Unfolds l (Field.allGaps waiting fs) waiting (fields l fs) := by
  induction fs generalizing waiting with
  | nil =>
    refine ⟨heads, fun origin origin' => ?_⟩
    rw [fields, bind_unit]
    exact agree_checkWords origin origin' waiting
  | cons f rest ih =>
    obtain ⟨heads', first⟩ := each f List.mem_cons_self heads
    obtain ⟨heads'', further⟩ := ih (fun f member => each f (List.mem_cons_of_mem _ member)) heads'
    refine ⟨heads'', fun origin origin' => ?_⟩
    rw [Field.allGaps, fields]
    dsimp only
    rw [passGaps_append, bind_assoc]
    have both := (first origin origin').bind fun _ => Agree.refl (fields l rest)
    rw [bind_assoc, bind_assoc] at both
    apply Agree.trans _ both
    apply (Agree.refl _).bind
    intro _
    exact further origin origin

theorem unfolds_data (words : List Word) {p : Payload} (exchanged : p.use = .exchanged)
    {waiting : List Word} (heads : Heads waiting) :
    Unfolds l (Field.gaps waiting (.data words p)) waiting (field l (.data words p)) := by
  rw [Field.gaps, exchanged, if_neg (by simp [Use.isHidden])]
  refine ⟨.nil, fun origin origin' => ?_⟩
  dsimp only
  rw [checkWords, bind_unit, passGaps_single, passGap, field, checkWords_append _ heads, bind_assoc]
  apply (agree_checkWords _ _ waiting).bind
  intro _
  apply (agree_checkWords _ _ words).bind
  intro _
  exact .refl _

/-- The gaps of a field without directives, by induction on how it is declared. -/
theorem unfolds_gaps {f : Field} (declared : f.Declared item) (plain : f.isPlain = true)
    {waiting : List Word} (heads : Heads waiting) :
    Unfolds l (f.gaps waiting) waiting (field l f) := by
  induction declared generalizing waiting with
  | derive => cases plain
  | hidden | item | scalar => exact unfolds_data _ (of_decide_eq_true plain) heads
  | vector _ exchanged => exact unfolds_data _ exchanged heads
  | hiddenGroup => cases plain
  | @group _ shared inner declared bound ih =>
    have inner_plain := Field.allPlain_iff.mp plain
    have words := heads.append (.cons shared (Word.ofTag (inner.countP Field.isVisible)) .nil)
    obtain ⟨heads', agrees⟩ :=
      unfolds_allGaps (fun f member {_} heads => ih f member (inner_plain f member) heads) words
    refine ⟨heads', fun origin origin' => ?_⟩
    rw [field]
    apply (agrees origin origin').trans
    rw [checkWords_append _ heads, bind_assoc]
    apply (Agree.refl _).bind
    intro _
    exact (agree_checkWords _ _ _).bind fun _ => .refl _

/-- The gaps of a whole section without directives. -/
theorem layOut_agrees {fs : List Field} (declared : ∀ f ∈ fs, f.Declared item)
    (plain : Field.allPlain fs = true) {waiting : List Word} (heads : Heads waiting)
    (origin : String) :
    Agree (passGaps l (Field.layOut waiting fs)) (do checkWords origin waiting; fields l fs) := by
  have all_plain := Field.allPlain_iff.mp plain
  obtain ⟨_, agrees⟩ : Unfolds l (Field.allGaps waiting fs) waiting (fields l fs) :=
    unfolds_allGaps
      (fun f member {_} heads => unfolds_gaps (declared f member) (all_plain f member) heads) heads
  rw [Field.layOut]
  generalize Field.allGaps waiting fs = made at agrees
  dsimp only
  split
  · rename_i none_left
    have ended := agrees origin origin
    rw [none_left, checkWords, bind_unit] at ended
    exact ended
  · rw [passGaps_append, passGaps_single]
    apply Agree.trans _ (agrees l.grammar origin)
    apply (Agree.refl _).bind
    intro _
    exact .of_eq (bind_unit _)

section
variable {origin : String} {t t' : Tape} {w expected : Word} {rest : Bytes}

theorem run_takeWord (split : t.rest = w.toBytes ++ rest) (out : Bool) :
    (takeWord out).run t =
      .ok (w, { t with rest := rest, output := t.output ++ if out then w.toBytes else [] }) := by
  have taken : (take 4 out).run t =
      .ok (w.toBytes,
        { t with rest := rest, output := t.output ++ if out then w.toBytes else [] }) := by
    change (if 4 ≤ t.rest.length then _ else _) = _
    rw [split, if_pos (by simp), List.take_left' w.length_toBytes, List.drop_left' w.length_toBytes]
  rw [takeWord, run_bind_ok taken, Word.ofBytes_toBytes]
  rfl

/-- A word of which nothing is put out. -/
theorem run_checkedWord (split : t.rest = w.toBytes ++ rest) :
    (takeWord false).run t = .ok (w, { t with rest := rest }) := by
  have taken := run_takeWord split false
  rwa [if_neg Bool.false_ne_true, List.append_nil] at taken

/-- A difference between tag words is settled by a list without items. -/
theorem settle_walked (run : (settle origin w).run t = .ok ((), t')) :
    t' = { t with deferred := none } ∧ (t.deferred ≠ none → w = 0) := by
  rw [run_settle] at run
  cases deferred : t.deferred with
  | none =>
    rw [deferred] at run
    cases run
    exact ⟨by rw [← deferred], fun differs => absurd rfl differs⟩
  | some d =>
    rw [deferred] at run
    dsimp only at run
    by_cases empty : w = 0
    · rw [if_neg (not_not_intro empty)] at run
      cases run
      exact ⟨rfl, fun _ => empty⟩
    · rw [if_pos empty] at run
      cases run

theorem checkTag_walked (split : t.rest = w.toBytes ++ rest)
    (run : (checkTag origin expected).run t = .ok ((), t')) :
    expected = w ∧ t' = { t with rest := rest } ∨
      expected.isList = true ∧ w.isList = true ∧
        t' = { t with rest := rest, deferred := some ⟨expected, w⟩ } := by
  rw [checkTag, run_bind_ok (run_checkedWord split)] at run
  by_cases same : expected = w
  · rw [if_pos same] at run
    cases run
    exact .inl ⟨same, rfl⟩
  · rw [if_neg same] at run
    split at run
    · rename_i lists
      cases run
      exact .inr ⟨lists.1, lists.2, rfl⟩
    · cases run

theorem checkLength_walked (split : t.rest = w.toBytes ++ rest)
    (run : (checkLength origin expected).run t = .ok ((), t')) :
    expected = w ∧ (t.deferred ≠ none → w = 0) ∧
      t' = { t with rest := rest, deferred := none } := by
  rw [checkLength, run_bind_ok (run_checkedWord split)] at run
  obtain ⟨_, t₁, settled, run⟩ := bind_ok run
  obtain ⟨rfl, empty⟩ := settle_walked settled
  by_cases same : expected = w
  · rw [if_neg (not_not_intro same)] at run
    cases run
    exact ⟨same, empty, rfl⟩
  · rw [if_pos same] at run
    cases run

theorem takeLength_walked {g : Gap} {n : Nat} (split : t.rest = w.toBytes ++ rest)
    (run : (takeLength origin g).run t = .ok (n, t')) :
    w.length? = some n ∧ (t.deferred ≠ none → w = 0) ∧
      t' = { t with rest := rest, deferred := none, output := t.output ++ w.toBytes } := by
  rw [takeLength, run_bind_ok (run_takeWord split true)] at run
  obtain ⟨_, t₁, settled, run⟩ := bind_ok run
  obtain ⟨rfl, empty⟩ := settle_walked settled
  cases length : w.length? with
  | none =>
    rw [length] at run
    cases run
  | some m =>
    rw [length] at run
    cases run
    exact ⟨rfl, empty, rfl⟩

section
variable {shared : Option Kind} {v : Value} {body more : Bytes}

/-- Past the tag word of a list there is an encoded list, whose items share the kind that was
expected unless a difference is deferred. -/
theorem listTag_walked (encoded : Tagged.encodeBody v = .ok body)
    (place : t.rest = v.word.toBytes ++ body ++ more)
    (run : (checkTag origin (Word.ofList shared)).run t = .ok ((), t')) :
    ∃ (items : List Value) (w : Word) (bytes : Bytes), v = .list items ∧
      w.length? = some items.length ∧
      Tagged.encodeItems (Value.shared items).isSome items = .ok bytes ∧
        t'.rest = w.toBytes ++ (bytes ++ more) ∧
      t'.output = t.output ∧ (t'.deferred = none → Value.shared items = shared) := by
  rw [List.append_assoc] at place
  have list : v.isList = true := by
    rw [← Value.isList_word]
    rcases checkTag_walked place run with ⟨same, _⟩ | ⟨_, list, _⟩
    · rw [← same]
      exact (Word.ofList_announces shared).2.1
    · exact list
  cases v with
  | list items =>
    obtain ⟨w, bytes, length, inner, rfl⟩ := Tagged.encodeBody_list encoded
    refine ⟨items, w, bytes, rfl, length, inner, ?_⟩
    rcases checkTag_walked place run with ⟨same, rfl⟩ | ⟨_, _, rfl⟩
    · exact ⟨List.append_assoc .., rfl, fun _ => (Word.ofList_inj same).symm⟩
    · exact ⟨List.append_assoc .., rfl, nofun⟩
  | _ => cases list

/-- Items that share the expected kind, or none at all, are encoded as a list of that kind
has them. -/
theorem items_expected {items : List Value} {bytes : Bytes} {d : Option Deferred}
    (length : w.length? = some items.length)
    (encoded : Tagged.encodeItems (Value.shared items).isSome items = .ok bytes)
    (empty : d ≠ none → w = 0) (same : d = none → Value.shared items = shared) :
    Tagged.encodeItems shared.isSome items = .ok bytes ∧ ∀ kind, shared = some kind →
      ∀ v ∈ items, v.kind? = some kind := by
  by_cases deferred : d = none
  · obtain rfl := same deferred
    exact ⟨encoded, fun kind => Value.kinds_of_shared⟩
  · obtain rfl := empty deferred
    obtain rfl : items = [] := List.length_eq_zero_iff.mp (Option.some.inj length).symm
    exact ⟨encoded, fun kind _ v member => absurd member List.not_mem_nil⟩

/-- The words in front of a list with a fixed number of items. -/
theorem head_walked {n : Nat} (bound : n < 0x80000000) (encoded : Tagged.encodeBody v = .ok body)
    (place : t.rest = v.word.toBytes ++ body ++ more)
    (run : (checkWords origin [Word.ofList shared, Word.ofTag n]).run t = .ok ((), t')) :
    ∃ (items : List Value) (bytes : Bytes), v = .list items ∧ items.length = n ∧
      Tagged.encodeItems shared.isSome items = .ok bytes ∧
        (∀ kind, shared = some kind → ∀ v ∈ items, v.kind? = some kind) ∧
      t'.rest = bytes ++ more ∧ t'.output = t.output ∧ t'.deferred = none := by
  have list : (Word.ofList shared).isList = true := (Word.ofList_announces shared).2.1
  rw [checkWords, if_pos list] at run
  obtain ⟨_, t₁, tagged, run⟩ := bind_ok run
  obtain ⟨items, w, bytes, rfl, length, inner, rest, output, same⟩ :=
    listTag_walked encoded place tagged
  obtain ⟨_, t₂, counted, run⟩ := bind_ok run
  cases run
  obtain ⟨rfl, empty, rfl⟩ := checkLength_walked rest counted
  obtain ⟨encoded, kinds⟩ := items_expected length inner empty same
  rw [Word.length_ofTag bound] at length
  exact ⟨items, bytes, rfl, (Option.some.inj length).symm, encoded, kinds, rfl, output, rfl⟩

/-- The words in front of a list that tells the number of its items. -/
theorem openHead_walked {origin' : String} {g : Gap} {n : Nat} {t'' : Tape}
    (encoded : Tagged.encodeBody v = .ok body) (place : t.rest = v.word.toBytes ++ body ++ more)
    (tagged : (checkWords origin [Word.ofList shared]).run t = .ok ((), t''))
    (run : (takeLength origin' g).run t'' = .ok (n, t')) :
    ∃ (items : List Value) (w : Word) (bytes : Bytes), v = .list items ∧ items.length = n ∧
      w.length? = some n ∧
      Tagged.encodeItems shared.isSome items = .ok bytes ∧
        (∀ kind, shared = some kind → ∀ v ∈ items, v.kind? = some kind) ∧
      t'.rest = bytes ++ more ∧ t'.output = t.output ++ w.toBytes ∧ t'.deferred = none := by
  obtain ⟨items, w, bytes, rfl, length, inner, rest, output, same⟩ :=
    listTag_walked encoded place tagged
  obtain ⟨told, empty, rfl⟩ := takeLength_walked rest run
  obtain ⟨encoded, kinds⟩ := items_expected length inner empty same
  have count : items.length = n := Option.some.inj (length.symm.trans told)
  refine ⟨items, w, bytes, rfl, count, told, encoded, kinds, rfl, ?_, rfl⟩
  dsimp only
  rw [output]

end

section
variable {shared : Option Kind} {received : Word} {n : Nat}
  (alike : received = Word.ofList shared ∨ received.isList = true ∧ n = 0)
include alike

/-- The tag word of a list is got past, and in front of no items that of any other list, with a
difference that is deferred. -/
theorem run_listTag (origin : String) (settled : t.deferred = none)
    (split : t.rest = received.toBytes ++ rest) :
    ∃ d, (checkTag origin (Word.ofList shared)).run t =
        .ok ((), { t with rest := rest, deferred := d }) ∧
      (d ≠ none → n = 0) := by
  rw [checkTag, run_bind_ok (run_checkedWord split)]
  by_cases same : Word.ofList shared = received
  · refine ⟨none, ?_, fun differs => absurd rfl differs⟩
    rw [if_pos same, ← settled]
    rfl
  · obtain ⟨list, empty⟩ : received.isList = true ∧ n = 0 := by
      rcases alike with rfl | other
      · exact absurd rfl same
      · exact other
    have lists : (Word.ofList shared).isList = true ∧ received.isList = true :=
      ⟨(Word.ofList_announces shared).2.1, list⟩
    refine ⟨some ⟨Word.ofList shared, received⟩, ?_, fun _ => empty⟩
    rw [if_neg same, if_pos lists]
    rfl

omit alike in
/-- A difference is settled in front of no items. -/
theorem run_settle_empty (told : w.length? = some n) (empty : t.deferred ≠ none → n = 0) :
    (settle origin w).run t = .ok ((), { t with deferred := none }) := by
  rw [run_settle]
  obtain ⟨rest, lastByte, deferred, output⟩ := t
  cases deferred with
  | none => rfl
  | some d =>
    obtain rfl : n = 0 := empty nofun
    have zero : w = 0 := UInt32.toNat_inj.mp (Word.toNat_of_length told).1
    dsimp only
    rw [if_neg (not_not_intro zero)]

/-- The words in front of a list with a fixed number of items. -/
theorem puts_head (origin : String) (bound : n < 0x80000000) :
    Puts (checkWords origin [Word.ofList shared, Word.ofTag n])
      (received.toBytes ++ (Word.ofTag n).toBytes) [] () := by
  intro t rest settled split
  rw [List.append_assoc] at split
  obtain ⟨d, tagged, empty⟩ := run_listTag alike origin settled split
  have list : (Word.ofList shared).isList = true := (Word.ofList_announces shared).2.1
  have counted : (checkLength origin (Word.ofTag n)).run
      { t with rest := (Word.ofTag n).toBytes ++ rest, deferred := d } =
        .ok ((), { t with rest := rest, deferred := none }) := by
    rw [checkLength, run_bind_ok (run_checkedWord rfl)]
    rw [run_bind_ok (run_settle_empty (Word.length_ofTag bound) empty), if_neg (by simp)]
    rfl
  refine ⟨{ t with rest := rest, deferred := none }, ?_, rfl, rfl, (List.append_nil _).symm⟩
  rw [checkWords, if_pos list, run_bind_ok tagged, run_bind_ok counted]
  rfl

/-- The words in front of a list that tells the number of its items. -/
theorem puts_openHead (origin origin' : String) (g : Gap) (told : w.length? = some n) :
    Puts (do checkWords origin [Word.ofList shared]; takeLength origin' g)
      (received.toBytes ++ w.toBytes) w.toBytes n := by
  intro t rest settled split
  rw [List.append_assoc] at split
  obtain ⟨d, tagged, empty⟩ := run_listTag alike origin settled split
  refine ⟨{ t with rest := rest, deferred := none, output := t.output ++ w.toBytes }, ?_, rfl, rfl,
    rfl⟩
  rw [checkWords, run_bind_ok tagged, takeLength, run_bind_ok (run_takeWord rfl true)]
  rw [run_bind_ok (run_settle_empty told empty), told]
  rfl

end

end

end Strict

end TagWire
