import TagWire.Proofs.Decoder.Agenda
import TagWire.Proofs.Decoder.Moves
import TagWire.Proofs.Decoder.Places

/-!
# What a pass makes of fields

Where a pass over the gaps of fields comes to its end, it has delivered what these contribute to a
message, and what is loaded is in its place there.

- `Pass.elements_series`: elements are the items of a list of their kind.
- `Field.gaps_contribute`, `Field.allGaps_contribute`: the gaps of a field, and of several.
-/

namespace TagWire

open Tagged (Announced Body Item Primitive Series)
open Layout.Head (lengthWords)

namespace Tagged

/-- Pieces that each stand for a value. -/
theorem Series.of_pieces {ι : Type} {one : Bytes → Value → Prop} {bytesOf : ι → Bytes}
    {pieces : List ι} (each : ∀ piece ∈ pieces, ∃ v, one (bytesOf piece) v) :
    ∃ vs, vs.length = pieces.length ∧ Series one (pieces.flatMap bytesOf) vs := by
  induction pieces with
  | nil => exact ⟨[], rfl, .nil⟩
  | cons piece rest ih =>
    obtain ⟨v, first⟩ := each piece List.mem_cons_self
    obtain ⟨vs, length, series⟩ := ih fun piece member => each piece (List.mem_cons_of_mem _ member)
    exact ⟨v :: vs, congrArg (· + 1) length, .cons first series⟩

/-- Bytes that divide into values of one size. -/
theorem Series.of_fixed {kind : Kind} {size : Nat} (known : kind.size? = some size) {n : Nat}
    {bytes : Bytes} (length : bytes.length = n * size) :
    ∃ vs, vs.length = n ∧ Series (Primitive kind) bytes vs := by
  induction n generalizing bytes with
  | zero =>
    obtain rfl : bytes = [] := List.length_eq_zero_iff.mp (by omega)
    exact ⟨[], rfl, .nil⟩
  | succ n ih =>
    rw [Nat.succ_mul] at length
    have first : (bytes.take size).length = size := List.length_take_of_le (by omega)
    obtain ⟨vs, count, series⟩ := @ih (bytes.drop size) (by rw [List.length_drop]; omega)
    have both : Series (Primitive kind) (bytes.take size ++ bytes.drop size) _ :=
      .cons (.fixed known first) series
    rw [List.take_append_drop] at both
    exact ⟨_, congrArg (· + 1) count, both⟩

end Tagged

namespace Pass

theorem elements_series {p : Payload} (sound : p.Sound) {n : Nat} {l l' : Ledger}
    (run : (elements p n).run l = (.ok (), l')) :
    ∃ sent vs, l'.delivered = l.delivered ++ sent ∧ vs.length = n ∧
      Series (Primitive p.kind) sent vs := by
  unfold elements at run
  cases known : p.kind.size? with
  | none =>
    rw [known] at run
    obtain ⟨pieces, rfl, texts, moves⟩ :=
      repeated_moves (P := fun _ sent => ∃ v, Primitive p.kind sent v)
      (fun l l' read => by
        obtain ⟨w, bytes, told, moves⟩ := text_moves read
        exact ⟨_, _, ⟨_, .text known told⟩, moves⟩) run
    obtain ⟨vs, length, series⟩ := Series.of_pieces texts
    exact ⟨_, vs, moves.delivered, length, series⟩
  | some size =>
    rw [known] at run
    cases conversion : p.conversion with
    | identity =>
      rw [conversion] at run
      obtain ⟨bytes, length, moves⟩ := forward_moves run
      obtain ⟨vs, count, series⟩ := Series.of_fixed known length
      exact ⟨bytes, vs, moves.delivered, count, series⟩
    | narrow | pad =>
      rw [conversion] at run
      obtain ⟨pieces, rfl, converted, moves⟩ :=
        repeated_moves (P := fun _ sent => ∃ v, Primitive p.kind sent v)
        (fun l l' read => by
          obtain ⟨wire, bytes, outer, tagged, moves⟩ := converted_moves read
          exact ⟨wire, bytes, ⟨_, .fixed known (Task.length_tagged sound known outer tagged)⟩,
            moves⟩) run
      obtain ⟨vs, length, series⟩ := Series.of_pieces converted
      exact ⟨_, vs, moves.delivered, length, series⟩

/-- A piece of data that is a single value. -/
theorem payload_single {p : Payload} (sound : p.Sound) (visible : p.use.isHidden = false)
    (single : p.count = .fixed 1) {l l' : Ledger} (run : (payload p).run l = (.ok (), l')) :
    ∃ sent v, l'.delivered = l.delivered ++ sent ∧ Primitive p.kind sent v ∧
      p.Loads l.properties v := by
  unfold payload at run
  cases use : p.use with
  | skipped | saved =>
    rw [use] at visible
    cases visible
  | loaded name literal =>
    rw [use] at run
    obtain ⟨i, given, moves⟩ := loaded_moves run
    obtain ⟨size, known⟩ := Kind.size_of_isInteger (sound.loaded (by rw [use]; rfl)).1
    have length : (Bytes.ofInt (p.kind.size?.getD 0) i.toInt).length = size := by
      rw [Bytes.length_ofInt, known]
      rfl
    refine ⟨_, _, moves.delivered, .fixed known length, fun name' literal' use' => ?_⟩
    rw [use] at use'
    cases use'
    exact ⟨i, given, rfl⟩
  | exchanged =>
    rw [use] at run
    dsimp only at run
    rw [single] at run
    obtain ⟨sent, vs, delivered, length, series⟩ := elements_series sound run
    obtain ⟨v, rfl⟩ := List.length_eq_one_iff.mp length
    obtain _ | ⟨first, ⟨⟩⟩ := series
    rename_i bytes
    rw [List.append_nil] at delivered
    exact ⟨bytes, v, delivered, first, p.loads_unloaded (by rw [use]; rfl) _ v⟩

/-- A piece of data that is the body of a list, with the words that tell its length. -/
theorem payload_vector {p : Payload} (sound : p.Sound) (exchanged : p.use = .exchanged)
    {l l' : Ledger} (run : (payload p).run l = (.ok (), l')) :
    ∃ (sent : Bytes) (w : Word) (rest : Bytes) (vs : List Value),
      l'.delivered = l.delivered ++ sent ∧
      (lengthWords p.count).flatMap Word.toBytes ++ sent = w.toBytes ++ rest ∧
        w.length? = some vs.length ∧
      Series (Primitive p.kind) rest vs := by
  rw [payload, exchanged] at run
  dsimp only at run
  cases count : p.count with
  | fixed n =>
    rw [count] at run
    obtain ⟨sent, vs, delivered, rfl, series⟩ := elements_series sound run
    refine ⟨sent, Word.ofTag vs.length, sent, vs, delivered, ?_,
      Word.length_ofTag (sound.count count), series⟩
    rw [lengthWords, List.flatMap_singleton]
  | fromWire =>
    rw [count] at run
    obtain ⟨n, l₁, measured, run⟩ := bind_ok run
    obtain ⟨_, l₂, told, run⟩ := bind_ok run
    obtain ⟨w, length, moves⟩ := length_moves measured
    obtain ⟨sent, vs, delivered, rfl, series⟩ := elements_series sound run
    refine ⟨w.toBytes ++ sent, w, sent, vs, ?_, rfl, length, series⟩
    rw [delivered, (deliver_moves told).delivered, lengthBytes_eq length, moves.delivered,
      List.append_nil,
      List.append_assoc]

/-- Data that is hidden delivers nothing, whatever words wait. -/
theorem gap_hidden {p : Payload} (hidden : p.use.isHidden = true) {l l' : Ledger}
    (run : (gap ⟨[], .data p⟩).run l = (.ok (), l')) : l'.delivered = l.delivered := by
  obtain ⟨_, l₁, sent, run⟩ := bind_ok run
  have none_sent : l₁.delivered = l.delivered :=
    (deliver_moves sent).delivered.trans (List.append_nil _)
  rw [payload_hidden hidden] at run
  obtain ⟨_, moves⟩ := hide_moves run
  rw [moves.delivered, none_sent, List.append_nil]

theorem gap_derivation {derivation : Derivation} {origin : String} {l l' : Ledger}
    (run : (gap ⟨[], .derivation derivation origin⟩).run l = (.ok (), l')) :
    l'.delivered = l.delivered := by
  obtain ⟨_, l₁, derived, sent⟩ := bind_ok run
  have silent := (silent_derive derivation).delivered_eq l
  rw [derived] at silent
  rw [(deliver_moves sent).delivered, ← silent]
  exact List.append_nil _

/-- Visible data delivers the words in front of it, then itself. -/
theorem gap_data {words : List Word} {p : Payload} {l l' : Ledger}
    (run : (gap ⟨words, .data p⟩).run l = (.ok (), l')) :
    ∃ l₁, (payload p).run l₁ = (.ok (), l') ∧
      l₁.delivered = l.delivered ++ words.flatMap Word.toBytes ∧ l₁.properties = l.properties := by
  obtain ⟨_, l₁, sent, run⟩ := bind_ok run
  cases sent
  exact ⟨_, run, rfl, rfl⟩

end Pass

namespace Field

variable {depth : Nat} {item : Option Kind} {waiting : List Word}

/-- Where a pass over gaps comes to its end, it has delivered the words that waited before them and
some bytes that are contributed to a message, but for the words that wait behind them. The data that
it has reached is in its place in the fields, loaded with what was there by then. -/
def Delivers (fields : List Field) (gaps : List Gap × List Word) (waiting : List Word)
    (contribute : Bytes → List Value → Prop) : Prop :=
  ∀ {l l'}, (Pass.gaps gaps.1).run l = (.ok (), l') → ∃ sent vs, contribute sent vs ∧
    l'.delivered ++ gaps.2.flatMap Word.toBytes =
      l.delivered ++ waiting.flatMap Word.toBytes ++ sent ∧
    List.Forall₂ Meets (Pass.reached gaps.1 l) (allPlaced fields vs)

theorem allGaps_contribute {fields : List Field}
    (each : ∀ f ∈ fields, ∀ waiting,
      Delivers [f] (f.gaps waiting) waiting (f.Contributes depth item))
    (waiting : List Word) :
    Delivers fields (allGaps waiting fields) waiting (AllContribute depth item fields) := by
  induction fields generalizing waiting with
  | nil =>
    intro l l' run
    cases run
    exact ⟨[], [], .nil, (List.append_nil _).symm, .nil⟩
  | cons f rest ih =>
    intro l l' run
    rw [allGaps] at run ⊢
    dsimp only at run ⊢
    rw [Pass.gaps_append] at run
    obtain ⟨_, l₁, first, run⟩ := Pass.bind_ok run
    obtain ⟨sent, vs, contributes, delivered, met⟩ := each f List.mem_cons_self waiting first
    obtain ⟨sent', vs', further, delivered', met'⟩ :=
      ih (fun f member => each f (List.mem_cons_of_mem _ member)) (f.gaps waiting).2 run
    refine ⟨sent ++ sent', vs ++ vs', .cons contributes further, ?_, ?_⟩
    · rw [delivered', delivered, List.append_assoc]
    · rw [Pass.reached_append first, allPlaced_cons contributes]
      exact List.rel_append met met'

theorem AllContribute.nothing {fields : List Field} (hidden : ∀ f ∈ fields, f.isVisible = false)
    {bytes : Bytes} {vs : List Value} (h : AllContribute depth item fields bytes vs) :
    bytes = [] ∧ vs = [] := by
  induction h with
  | nil => exact ⟨rfl, rfl⟩
  | @cons f fields _ _ _ _ first _ ih =>
    obtain ⟨rfl, rfl⟩ := ih fun f member => hidden f (List.mem_cons_of_mem _ member)
    have f_hidden := hidden f List.mem_cons_self
    cases first with
    | nothing => exact ⟨rfl, rfl⟩
    | item visible | own visible =>
      rw [f_hidden] at visible
      cases visible

/-- The gaps of a hidden field deliver nothing. -/
theorem gaps_hidden {f : Field} (declared : f.Declared item) (hidden : f.isVisible = false)
    (waiting : List Word) :
    Delivers [f] (f.gaps waiting) waiting (f.Contributes depth item) := by
  induction declared generalizing waiting with
  | derive =>
    intro l l' run
    rw [gaps, Pass.gaps_single] at run
    refine ⟨[], [], .nothing rfl, ?_, .nil⟩
    rw [gaps, Pass.gap_derivation run, List.append_nil]
  | @hidden _ p sound unused =>
    intro l l' run
    rw [gaps, if_pos unused, Pass.gaps_single] at run
    refine ⟨[], [], .nothing hidden, ?_, ?_⟩
    · rw [gaps, if_pos unused, Pass.gap_hidden unused run, List.append_nil]
    · rw [gaps, if_pos unused, allPlaced_hidden hidden, Pass.reached_single,
        Gap.shown_hidden unused]
      exact .nil
  | item sound visible | scalar sound visible => simp [isVisible, visible] at hidden
  | vector sound exchanged => simp [isVisible, exchanged, Use.isHidden] at hidden
  | @hiddenGroup _ inner fields declared all_hidden ih =>
    intro l l' run
    rw [gaps, List.append_nil] at run ⊢
    obtain ⟨sent, vs, contribute, delivered, met⟩ :=
      allGaps_contribute (fun f member => ih f member (all_hidden f member)) waiting run
    obtain ⟨rfl, rfl⟩ := contribute.nothing all_hidden
    refine ⟨[], [], .nothing rfl, delivered, ?_⟩
    rw [allPlaced_nothing all_hidden] at met
    rw [allPlaced_hidden rfl]
    exact met
  | group => cases hidden

/-- Data that is reached is in its place, as it is the one value of its field. -/
theorem meets_data {words tags : List Word} {p : Payload} (visible : p.use.isHidden = false)
    {l : Ledger} {v : Value} (loads : p.Loads l.properties v) :
    List.Forall₂ Meets (Pass.reached [⟨words, .data p⟩] l) (allPlaced [data tags p] [v]) := by
  have shown : (data tags p).isVisible = true := by simp [isVisible, visible]
  rw [Pass.reached_single, Gap.shown_visible visible, allPlaced_visible shown]
  exact .cons ⟨rfl, loads⟩ .nil

/-- Visible data delivers the words in front of it, then what stands for the one value of its field. -/
theorem gaps_data {tags : List Word} {p : Payload} {contribute : Bytes → List Value → Prop}
    (visible : p.use.isHidden = false)
    (payload : ∀ l l', (Pass.payload p).run l = (.ok (), l') → ∃ sent v,
      contribute (tags.flatMap Word.toBytes ++ sent) [v] ∧ l'.delivered = l.delivered ++ sent ∧
      p.Loads l.properties v) (waiting : List Word) :
    Delivers [data tags p] ((data tags p).gaps waiting) waiting contribute := by
  intro l l' run
  rw [gaps, if_neg (by simp [visible])] at run ⊢
  rw [Pass.gaps_single] at run
  obtain ⟨l₁, run, waited, same⟩ := Pass.gap_data run
  obtain ⟨sent, v, contributes, delivered, loads⟩ := payload _ _ run
  refine ⟨_, [v], contributes, ?_, meets_data visible (same ▸ loads)⟩
  rw [delivered, waited]
  simp

/-- The gaps of a declared field deliver what it contributes, by induction on how it is declared. -/
theorem gaps_contribute {f : Field} (declared : f.Declared item) (items : f.itemsOnly = true)
    (shallow : f.depth ≤ depth) (waiting : List Word) :
    Delivers [f] (f.gaps waiting) waiting (f.Contributes depth item) := by
  induction declared generalizing depth waiting with
  | derive derivation origin => exact gaps_hidden (.derive derivation origin) rfl waiting
  | hidden sound hidden =>
    exact gaps_hidden (.hidden sound hidden) (by simp [isVisible, hidden]) waiting
  | hiddenGroup declared hidden => exact gaps_hidden (.hiddenGroup declared hidden) rfl waiting
  | item sound visible single =>
    apply gaps_data visible
    intro l l' run
    obtain ⟨sent, v, delivered, primitive, loads⟩ := Pass.payload_single sound visible single run
    exact ⟨sent, v, contributes_item visible primitive, delivered, loads⟩
  | scalar sound visible single =>
    apply gaps_data visible
    intro l l' run
    obtain ⟨sent, v, delivered, primitive, loads⟩ := Pass.payload_single sound visible single run
    refine ⟨sent, v, ?_, delivered, loads⟩
    rw [List.flatMap_singleton]
    exact contributes_scalar visible primitive
  | @vector _ p sound exchanged =>
    have visible : p.use.isHidden = false := by rw [exchanged]; rfl
    rw [depth_vector] at shallow
    obtain ⟨depth, rfl⟩ := Nat.exists_eq_add_of_le' shallow
    apply gaps_data visible
    intro l l' run
    obtain ⟨sent, w, rest, vs, delivered, body, length, series⟩ :=
      Pass.payload_vector sound exchanged run
    refine ⟨sent, .list vs, ?_, delivered, p.loads_unloaded (by rw [exchanged]; rfl) _ _⟩
    rw [List.flatMap_cons, List.append_assoc, body]
    exact contributes_vector visible length series
  | @group _ shared fields declared bound ih =>
    intro l l' run
    obtain ⟨depth, rfl⟩ : ∃ d, depth = d + 1 :=
      Nat.exists_eq_add_of_le' (Nat.le_trans (Nat.le_add_left 1 _) shallow)
    have inner_shallow := allDepth_le.mp (Nat.le_of_succ_le_succ shallow)
    have inner_items := allItemsOnly_iff.mp (Bool.and_eq_true_iff.mp items).2
    obtain ⟨sent, vs, contribute, delivered, met⟩ :=
      allGaps_contribute
        (fun f member => ih f member (inner_items f member) (inner_shallow f member)) _ run
    have alike : ∀ f ∈ fields, f.isVisible = true → f.isItem = shared.isSome := by
      intro f member
      exact alike_of_itemsOnly declared items member
    refine ⟨_, [.list vs], contributes_group contribute alike bound, ?_, ?_⟩
    · rw [gaps, delivered]
      simp
    · rw [gaps, allPlaced_visible rfl, placed, allPlaced, List.append_nil]
      exact met

end Field

end TagWire
