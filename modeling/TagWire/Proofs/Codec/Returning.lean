import TagWire.Proofs.Codec.Elements

/-!
# Fields there and back

What is put out for a field without directives is made into the value of the field again, but for
the precision that its narrowed floats lose.

- `Field.narrowed`: the value of a field when it comes back.
- `Field.Returns`, `Field.returns`: what is put out for a field.
- `Field.fields_return`: the fields of a list and its items.
-/

namespace TagWire

open Strict (Puts)
open Tagged (Announced Body Item Message Primitive Series encodeBody encodeItems)

namespace Field

mutual

/-- The value of a field when it comes back from outside. -/
def narrowed : Field → Value → Value
  | .data _ p, .list items => .list (items.map p.narrowed)
  | .data _ p, v => p.narrowed v
  | .group _ _ fields, .list items => .list (allNarrowed fields items)
  | _, v => v

def allNarrowed : List Field → List Value → List Value
  | f :: fields, v :: vs => f.narrowed v :: allNarrowed fields vs
  | _, vs => vs

end

theorem narrowed_data (words : List Word) (p : Payload) {v : Value} (primitive : v.kind? ≠ none) :
    (data words p).narrowed v = p.narrowed v := by
  cases v with
  | list => exact absurd rfl primitive
  | _ => rw [narrowed]; nofun

/-- A message comes back as a message. -/
theorem narrowed_list (f : Field) (items : List Value) :
    ∃ items', f.narrowed (.list items) = .list items' := by
  cases f with
  | derive => exact ⟨items, rfl⟩
  | data _ p => exact ⟨items.map p.narrowed, rfl⟩
  | group _ _ fields => exact ⟨allNarrowed fields items, rfl⟩

/-- Fields without directives are visible. -/
theorem isVisible_of_plain {f : Field} (plain : f.isPlain = true) : f.isVisible = true := by
  cases f with
  | derive => cases plain
  | data words p =>
    have exchanged : p.use = .exchanged := of_decide_eq_true plain
    rw [isVisible, exchanged]
    rfl
  | group => exact (Bool.and_eq_true_iff.mp plain).1

theorem countP_of_plain {fields : List Field} (plain : allPlain fields = true) :
    fields.countP isVisible = fields.length :=
  List.countP_eq_length.mpr fun f member => isVisible_of_plain (allPlain_iff.mp plain f member)

variable {l : Layout} {depth : Nat} {item : Option Kind}

/-- Wherever a walk gets past the field in an encoded message, a pass makes what was put out into
the value of the field again. -/
def Returns (l : Layout) (depth : Nat) (item : Option Kind) (f : Field) : Prop :=
  ∀ ⦃v body more t t'⦄, encodeBody v = .ok body → (f.isItem = true → v.kind? = item) →
    t.deferred = none →
    t.rest = (if f.isItem then [] else v.word.toBytes) ++ body ++ more →
      (Strict.field l f).run t = .ok ((), t') →
    ∃ wire sent, t'.deferred = none ∧ t'.rest = more ∧ t'.output = t.output ++ wire ∧
      (Pass.field f).Turns wire sent () ∧ f.Contributes depth item sent [f.narrowed v]

/-- The fields of a list and its items, one after the other. -/
theorem fields_return {fs : List Field} (each : ∀ f ∈ fs, f.Returns l depth item)
    (alike : ∀ f ∈ fs, f.isItem = item.isSome) {vs : List Value} (length : vs.length = fs.length)
    (kinds : ∀ kind, item = some kind → ∀ v ∈ vs, v.kind? = some kind) {bytes more : Bytes}
    (encoded : encodeItems item.isSome vs = .ok bytes) {t t' : Tape} (settled : t.deferred = none)
    (place : t.rest = bytes ++ more) (run : (Strict.fields l fs).run t = .ok ((), t')) :
    ∃ wire sent, t'.deferred = none ∧ t'.rest = more ∧ t'.output = t.output ++ wire ∧
      (Pass.fields fs).Turns wire sent () ∧
        AllContribute depth item fs sent (allNarrowed fs vs) := by
  induction fs generalizing vs bytes t with
  | nil =>
    obtain rfl := List.length_eq_zero_iff.mp length
    cases encoded
    cases run
    exact ⟨[], [], settled, place, (List.append_nil _).symm, .done (), .nil⟩
  | cons f rest ih =>
    cases vs with
    | nil => cases length
    | cons v vs =>
      obtain ⟨body, others, first, further, rfl⟩ := Tagged.encodeItems_cons encoded
      have f_alike := alike f List.mem_cons_self
      have fits : f.isItem = true → v.kind? = item := by
        intro is_item
        obtain ⟨kind, shared⟩ := Option.isSome_iff_exists.mp (f_alike.symm.trans is_item)
        rw [kinds kind shared v List.mem_cons_self, shared]
      have place' :
          t.rest = (if f.isItem then [] else v.word.toBytes) ++ body ++ (others ++ more) := by
        rw [place, f_alike, List.append_assoc]
      obtain ⟨_, t₁, walked, run⟩ := Strict.bind_ok run
      obtain ⟨wire, sent, settled', rest_eq, output, turns, contributes⟩ :=
        each f List.mem_cons_self first fits settled place' walked
      obtain ⟨wire', sent', settled'', rest_eq', output', turns', contribute⟩ :=
        ih (fun f member => each f (List.mem_cons_of_mem _ member))
          (fun f member => alike f (List.mem_cons_of_mem _ member))
          (Nat.succ.inj length)
            (fun kind shared v member => kinds kind shared v (List.mem_cons_of_mem _ member))
              further
          settled' rest_eq run
      refine ⟨wire ++ wire', sent ++ sent', settled'', rest_eq', ?_, turns.bind turns',
        .cons contributes contribute⟩
      rw [output', output, List.append_assoc]

/-- A walk that goes over a message, wherever it comes to its end. -/
theorem walked_of_puts {walk : Strict Unit} {message out rest : Bytes} {t t' : Tape}
    (puts : Puts walk message out ()) (settled : t.deferred = none)
    (place : t.rest = message ++ rest) (run : walk.run t = .ok ((), t')) :
    t'.deferred = none ∧ t'.rest = rest ∧ t'.output = t.output ++ out := by
  obtain ⟨t₁, run', settled', rest_eq, output⟩ := puts t rest settled place
  rw [run'] at run
  cases run
  exact ⟨settled', rest_eq, output⟩

theorem item_returns {p : Payload} (sound : p.Sound) (exchanged : p.use = .exchanged)
    (single : p.count = .fixed 1) :
    (data [] p).Returns l depth (some p.kind) := by
  intro v body more t t' encoded fits settled place run
  have kind := fits rfl
  obtain ⟨wire, sent, puts, turns, primitive⟩ :=
    Codec.single_exchanged sound exchanged single (l.originOf ⟨[], .data p⟩) ⟨[], .data p⟩ kind
      encoded
  obtain ⟨settled', rest_eq, output⟩ := walked_of_puts puts settled place run
  refine ⟨wire, sent, settled', rest_eq, output, turns.behind [], ?_⟩
  rw [narrowed_data [] p (by rw [kind]; nofun)]
  exact contributes_item (by rw [exchanged]; rfl) primitive

theorem scalar_returns {p : Payload} (sound : p.Sound) (exchanged : p.use = .exchanged)
    (single : p.count = .fixed 1) :
    (data [Word.ofKind p.kind] p).Returns l depth item := by
  intro v body more t t' encoded _ settled place run
  obtain ⟨_, t₁, tagged, run⟩ := Strict.bind_ok run
  rw [if_neg (by exact Bool.false_ne_true), List.append_assoc] at place
  rcases Strict.checkTag_walked place tagged with ⟨same, rfl⟩ | ⟨list, _⟩
  · have kind := Value.kind_of_word same.symm
    obtain ⟨wire, sent, puts, turns, primitive⟩ := Codec.single_exchanged sound exchanged single
      (l.originOf ⟨[Word.ofKind p.kind], .data p⟩) ⟨[Word.ofKind p.kind], .data p⟩ kind encoded
    obtain ⟨settled', rest_eq, output⟩ := walked_of_puts puts (by exact settled) (by rfl) run
    refine ⟨wire, (Word.ofKind p.kind).toBytes ++ sent, settled', rest_eq, output, ?_, ?_⟩
    · have behind := turns.behind ([Word.ofKind p.kind].flatMap Word.toBytes)
      rwa [List.flatMap_singleton] at behind
    · rw [narrowed_data [Word.ofKind p.kind] p (by rw [kind]; nofun)]
      exact contributes_scalar (by rw [exchanged]; rfl) primitive
  · rw [(Word.ofKind_announces p.kind).2] at list
    cases list

/-- The items of a vector are put out behind any tag word that is taken for the one of the vector,
and made into the vector again. -/
theorem vector_exchanged {p : Payload} (sound : p.Sound) (exchanged : p.use = .exchanged)
    (l : Layout) {vs : List Value} (kinds : ∀ v ∈ vs, v.kind? = some p.kind) {w : Word}
    (told : w.length? = some vs.length) (counted : ∀ n, p.count = .fixed n → vs.length = n)
    {bytes : Bytes} (encoded : encodeItems true vs = .ok bytes) :
    ∃ wire sent, (∀ received : Word,
        received = Word.ofList (some p.kind) ∨ received.isList = true ∧ vs.length = 0 →
        Puts (Strict.field l
          (data (Word.ofList (some p.kind) :: Layout.Head.lengthWords p.count) p))
          (received.toBytes ++ (w.toBytes ++ bytes)) wire ()) ∧
      (Pass.field (data (Word.ofList (some p.kind) :: Layout.Head.lengthWords p.count) p)).Turns
        wire ((Word.ofList (some p.kind)).toBytes ++ (w.toBytes ++ sent)) () ∧
      Series (Primitive p.kind) sent (vs.map p.narrowed) := by
  have walk_eq : Strict.field l
      (data (Word.ofList (some p.kind) :: Layout.Head.lengthWords p.count) p) = (do
        Strict.checkWords p.origin (Word.ofList (some p.kind) :: Layout.Head.lengthWords p.count)
        Strict.passPayload
          (l.originOf ⟨Word.ofList (some p.kind) :: Layout.Head.lengthWords p.count, .data p⟩)
          ⟨Word.ofList (some p.kind) :: Layout.Head.lengthWords p.count, .data p⟩ p) := rfl
  generalize Gap.mk (Word.ofList (some p.kind) :: Layout.Head.lengthWords p.count) (.data p) = g
    at walk_eq
  obtain ⟨wire, sent, puts, turns, series⟩ :=
    Codec.elements_exchanged sound (l.originOf g) g kinds encoded
  obtain rfl := Word.eq_ofTag told
  rw [walk_eq, Strict.passPayload, Pass.field, Pass.payload, exchanged]
  dsimp only
  cases count : p.count with
  | fixed n =>
    obtain rfl := counted n count
    refine ⟨wire, sent, fun received alike => ?_, ?_, series⟩
    · rw [← List.append_assoc]
      exact (Strict.puts_head alike p.origin (sound.count count)).bind puts
    · have behind := turns.behind
        ([Word.ofList (some p.kind), Word.ofTag vs.length].flatMap Word.toBytes)
      simpa [Layout.Head.lengthWords] using behind
  | fromWire =>
    refine ⟨(Word.ofTag vs.length).toBytes ++ wire, sent, fun received alike => ?_, ?_, series⟩
    · have opened := (Strict.puts_openHead alike p.origin (l.originOf g) g told).bind puts
      rw [List.append_assoc, LawfulMonad.bind_assoc] at opened
      exact opened
    · have behind :=
        (Pass.counted_turns told turns).behind ([Word.ofList (some p.kind)].flatMap Word.toBytes)
      simpa [Layout.Head.lengthWords] using behind

/-- What a walk gets past at a vector is an encoded list of its kind, and of its length if that is
fixed. -/
theorem vector_walked {p : Payload} (sound : p.Sound) (exchanged : p.use = .exchanged) {v : Value}
    {body more : Bytes} {t t' : Tape} (encoded : encodeBody v = .ok body)
    (place : t.rest = v.word.toBytes ++ body ++ more)
    (run : (Strict.field l
      (data (Word.ofList (some p.kind) :: Layout.Head.lengthWords p.count) p)).run t =
        .ok ((), t')) :
    ∃ items, v = .list items ∧ (∀ v ∈ items, v.kind? = some p.kind) ∧
      ∀ n, p.count = .fixed n → items.length = n := by
  rw [Strict.field] at run
  obtain ⟨_, t₁, headed, run⟩ := Strict.bind_ok run
  rw [Strict.passPayload, exchanged] at run
  dsimp only at run
  cases count : p.count with
  | fixed n =>
    rw [count] at headed
    obtain ⟨items, _, rfl, rfl, -, kinds, -⟩ :=
      Strict.head_walked (sound.count count) encoded place headed
    refine ⟨items, rfl, kinds p.kind rfl, ?_⟩
    rintro n ⟨rfl⟩
    rfl
  | fromWire =>
    rw [count] at run headed
    obtain ⟨n, t₂, counted, run⟩ := Strict.bind_ok run
    obtain ⟨items, _, _, rfl, -, -, -, kinds, -⟩ :=
      Strict.openHead_walked encoded place headed counted
    exact ⟨items, rfl, kinds p.kind rfl, fun n same => by cases same⟩

theorem vector_returns {p : Payload} (sound : p.Sound) (exchanged : p.use = .exchanged)
    (deep : 0 < depth) :
    (data (Word.ofList (some p.kind) :: Layout.Head.lengthWords p.count) p).Returns l depth
      item := by
  intro v body more t t' encoded _ settled place run
  obtain ⟨depth, rfl⟩ := Nat.exists_eq_succ_of_ne_zero (Nat.ne_of_gt deep)
  rw [if_neg (by exact Bool.false_ne_true)] at place
  obtain ⟨items, rfl, kinds, counted⟩ := vector_walked sound exchanged encoded place run
  have alike := Value.shared_of_kinds kinds
  obtain ⟨w, bytes, told, inner, rfl⟩ := Tagged.encodeBody_list encoded
  have shared_inner : encodeItems true items = .ok bytes := by
    rcases alike with shared | rfl
    · rwa [shared] at inner
    · exact inner
  obtain ⟨wire, sent, puts, turns, series⟩ :=
    vector_exchanged sound exchanged l kinds told counted shared_inner
  obtain ⟨settled', rest_eq, output⟩ :=
    walked_of_puts (puts _ (Value.word_of_shared alike)) settled place run
  have length : w.length? = some (items.map p.narrowed).length := by rw [List.length_map, told]
  exact ⟨wire, _, settled', rest_eq, output, turns,
    contributes_vector (by rw [exchanged]; rfl) length series⟩

/-- Every declared field without directives returns, by induction on how it is declared. -/
theorem returns {f : Field} (declared : f.Declared item) (plain : f.isPlain = true)
    (items : f.itemsOnly = true) (shallow : f.depth ≤ depth) : f.Returns l depth item := by
  induction declared generalizing depth with
  | derive => cases plain
  | hidden sound hidden =>
    have exchanged : _ = Use.exchanged := of_decide_eq_true plain
    rw [exchanged] at hidden
    cases hidden
  | item sound _ single => exact item_returns sound (of_decide_eq_true plain) single
  | scalar sound _ single => exact scalar_returns sound (of_decide_eq_true plain) single
  | vector sound exchanged =>
    rw [depth_vector] at shallow
    exact vector_returns sound exchanged shallow
  | hiddenGroup => cases plain
  | @group _ shared inner declared bound ih =>
    obtain ⟨depth, rfl⟩ : ∃ d, depth = d + 1 :=
      Nat.exists_eq_add_of_le' (Nat.le_trans (Nat.le_add_left 1 _) shallow)
    have inner_plain := allPlain_iff.mp plain
    have inner_shallow := allDepth_le.mp (Nat.le_of_succ_le_succ shallow)
    have inner_items := allItemsOnly_iff.mp (Bool.and_eq_true_iff.mp items).2
    have alike : ∀ f ∈ inner, f.isItem = shared.isSome := by
      intro f member
      exact alike_of_itemsOnly declared items member (isVisible_of_plain (inner_plain f member))
    intro v body more t t' encoded _ settled place run
    rw [if_neg (by exact Bool.false_ne_true)] at place
    obtain ⟨_, t₁, headed, run⟩ := Strict.bind_ok run
    obtain ⟨vs, bytes, rfl, length, inner_encoded, kinds, rest_eq, output, settled'⟩ :=
      Strict.head_walked bound encoded place headed
    obtain ⟨wire, sent, settled'', rest_eq', output', turns, contribute⟩ :=
      fields_return
        (fun f member =>
          ih f member (inner_plain f member) (inner_items f member) (inner_shallow f member))
        alike (length.trans (countP_of_plain plain)) kinds inner_encoded settled' rest_eq run
    refine ⟨wire, _, settled'', rest_eq', by rw [output', output], ?_,
      contributes_group contribute (fun f member _ => alike f member) bound⟩
    rw [Pass.field]
    have behind := turns.behind
      ([Word.ofList shared, Word.ofTag (inner.countP isVisible)].flatMap Word.toBytes)
    simpa using behind

/-- A walk does not get past a tag word that the message lacks. -/
theorem checkWords_starved {origin : String} {w : Word} {words : List Word} {t t' : Tape}
    (ended : t.rest = []) :
    (Strict.checkWords origin (w :: words)).run t ≠ .ok ((), t') := by
  have starved {t' : Tape} : (Strict.checkTag origin w).run t ≠ .ok ((), t') := by
    intro run
    obtain ⟨received, t₁, read, _⟩ := Strict.bind_ok run
    obtain ⟨bytes, t₂, taken, _⟩ := Strict.bind_ok read
    change (if 4 ≤ t.rest.length then _ else _) = _ at taken
    rw [ended, if_neg (by decide)] at taken
    cases taken
  intro run
  cases words with
  | nil => exact starved run
  | cons next rest =>
    obtain ⟨_, t₁, tagged, _⟩ := Strict.bind_ok run
    exact starved tagged

theorem starved {f : Field} (declared : f.Declared none) (plain : f.isPlain = true) {t t' : Tape}
    (ended : t.rest = []) :
    (Strict.field l f).run t ≠ .ok ((), t') := by
  intro run
  cases declared with
  | derive => cases plain
  | hidden sound hidden =>
    have exchanged : _ = Use.exchanged := of_decide_eq_true plain
    rw [exchanged] at hidden
    cases hidden
  | scalar | vector | group =>
    obtain ⟨_, t₁, headed, _⟩ := Strict.bind_ok run
    exact checkWords_starved ended headed
  | hiddenGroup => cases plain

/-- All fields of a section that is a list of its own have an item of the message. -/
theorem fields_return_all {fs : List Field} (declared : ∀ f ∈ fs, f.Declared none)
    (plain : allPlain fs = true) (items : allItemsOnly fs = true) (shallow : allDepth fs ≤ depth)
    {vs : List Value} (length : vs.length ≤ fs.length) {bytes : Bytes}
    (encoded : encodeItems false vs = .ok bytes) {t t' : Tape} (settled : t.deferred = none)
    (place : t.rest = bytes) (run : (Strict.fields l fs).run t = .ok ((), t')) :
    vs.length = fs.length ∧ ∃ wire sent, t'.output = t.output ++ wire ∧
      (Pass.fields fs).Turns wire sent () ∧
      AllContribute depth none fs sent (allNarrowed fs vs) := by
  have all_plain := allPlain_iff.mp plain
  have all_items := allItemsOnly_iff.mp items
  have all_shallow := allDepth_le.mp shallow
  obtain ⟨first, rest, rfl, count⟩ : ∃ first rest, fs = first ++ rest ∧ vs.length = first.length :=
    ⟨fs.take vs.length, fs.drop vs.length, (List.take_append_drop _ fs).symm,
      (List.length_take_of_le length).symm⟩
  have inside : ∀ f ∈ first, f ∈ first ++ rest := fun f member => List.mem_append_left rest member
  rw [Strict.fields_append] at run
  obtain ⟨_, t₁, walked, run⟩ := Strict.bind_ok run
  obtain ⟨wire, sent, _, ended, output, turns, contribute⟩ :=
    fields_return
      (fun f member => returns (declared f (inside f member)) (all_plain f (inside f member))
        (all_items f (inside f member)) (all_shallow f (inside f member)))
      (fun f member =>
        (declared f (inside f member)).not_item
          (isVisible_of_plain (all_plain f (inside f member))))
      count nofun encoded settled (place.trans (List.append_nil bytes).symm) walked
  cases rest with
  | nil =>
    cases run
    rw [List.append_nil]
    exact ⟨count, wire, sent, output, turns, contribute⟩
  | cons f rest =>
    have member : f ∈ first ++ f :: rest := List.mem_append_right first List.mem_cons_self
    obtain ⟨_, t₂, walked, _⟩ := Strict.bind_ok run
    exact absurd walked (starved (declared f member) (all_plain f member) ended)

end Field

end TagWire
