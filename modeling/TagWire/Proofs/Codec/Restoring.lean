import TagWire.Proofs.Codec.Returning

/-!
# Fields back and there

What a pass has made of a field without directives is the encoded value of the field, but for the
tag words of lists without items. A walk goes over the one as over the other, and puts out the same.

- `Field.mixed`: fields in which no list has only primitives of one kind.
- `Field.Restores`, `Field.restores`: what a pass delivers for a field, and the value that it is.
- `Field.fields_restore`: the fields of a list and its items.
-/

namespace TagWire

open Strict (Puts)
open Tagged (Primitive Series encodeBody encodeItems)

namespace Field

/-- The kind of the values of a field, none where they are lists. -/
def kind? : Field → Option Kind
  | data words p => if words.any Word.isList then none else some p.kind
  | _ => none

/-- The kind that all fields have in common, as `Value.shared` has it of values. -/
def shared : List Field → Option Kind
  | [] => none
  | first :: rest => first.kind?.filter fun kind => rest.all fun f => f.kind? = some kind

mutual

/-- Whether no list that could do with one tag word for its items gives each of them one. -/
def mixed : Field → Bool
  | group _ words fields =>
    (words.head? ≠ some (Word.ofList none) || shared fields = none) && allMixed fields
  | _ => true

def allMixed : List Field → Bool
  | [] => true
  | field :: rest => field.mixed && allMixed rest

end

theorem allMixed_iff {fields : List Field} :
    allMixed fields = true ↔ ∀ f ∈ fields, f.mixed = true := by
  induction fields with
  | nil => simp [allMixed]
  | cons f rest ih => simp [allMixed, ih]

/-- Values of the kinds of fields share what the fields share. -/
theorem shared_of_kinds {fs : List Field} {vs : List Value}
    (kinds : vs.map Value.kind? = fs.map kind?) : Value.shared vs = shared fs := by
  cases fs with
  | nil =>
    obtain rfl : vs = [] := List.map_eq_nil_iff.mp kinds
    rfl
  | cons f fs =>
    cases vs with
    | nil => cases kinds
    | cons v vs =>
      obtain ⟨first, others⟩ := List.cons.inj kinds
      have all_alike (kind : Kind) :
          (vs.all fun v => v.kind? = some kind) = fs.all fun f => f.kind? = some kind := by
        have same := congrArg (fun kinds => kinds.all fun k => k = some kind) others
        rw [List.all_map, List.all_map] at same
        exact same
      rw [Value.shared, shared, first]
      congr 1
      funext kind
      exact all_alike kind

variable {l : Layout} {depth : Nat} {item : Option Kind}

/-- What a pass delivers for the field is put out as the encoded form of the value that it is. -/
def Restores (l : Layout) (depth : Nat) (item : Option Kind) (f : Field) : Prop :=
  ∀ ⦃l₁ l₂⦄, (Pass.field f).run l₁ = (.ok (), l₂) →
    ∃ sent v body wire, l₂.delivered = l₁.delivered ++ sent ∧
      f.Contributes depth item sent [v] ∧ v.kind? = f.kind? ∧ encodeBody v = .ok body ∧
      Puts (Strict.field l f) sent wire () ∧
      Puts (Strict.field l f) ((if f.isItem then [] else v.word.toBytes) ++ body) wire ()

/-- The fields of a list and its items, one after the other. -/
theorem fields_restore {fs : List Field} (each : ∀ f ∈ fs, f.Restores l depth item)
    (alike : ∀ f ∈ fs, f.isItem = item.isSome) {l₁ l₂ : Ledger}
    (run : (Pass.fields fs).run l₁ = (.ok (), l₂)) :
    ∃ sent vs bytes wire, l₂.delivered = l₁.delivered ++ sent ∧
      AllContribute depth item fs sent vs ∧ vs.map Value.kind? = fs.map kind? ∧
      encodeItems item.isSome vs = .ok bytes ∧
      Puts (Strict.fields l fs) sent wire () ∧ Puts (Strict.fields l fs) bytes wire () := by
  induction fs generalizing l₁ with
  | nil =>
    cases run
    exact ⟨[], [], [], [], (List.append_nil _).symm, .nil, rfl, rfl, .done (), .done ()⟩
  | cons f rest ih =>
    obtain ⟨_, l', first, run⟩ := Pass.bind_ok run
    obtain ⟨sent, v, body, wire, delivered, contributes, kind, encoded, puts, puts_encoded⟩ :=
      each f List.mem_cons_self first
    obtain ⟨sent', vs, bytes, wire', delivered', contribute, kinds, encoded', puts',
        puts_encoded'⟩ :=
      ih (fun f member => each f (List.mem_cons_of_mem _ member))
        (fun f member => alike f (List.mem_cons_of_mem _ member)) run
    have items := Tagged.encodeItems_of_cons encoded encoded'
    rw [alike f List.mem_cons_self] at puts_encoded
    refine ⟨sent ++ sent', v :: vs, _, wire ++ wire', ?_, .cons contributes contribute, ?_, items,
      puts.bind puts', puts_encoded.bind puts_encoded'⟩
    · rw [delivered', delivered, List.append_assoc]
    · rw [List.map_cons, List.map_cons, kind, kinds]

/-- A piece of data that is a single value is encoded as it was delivered. -/
theorem single_restored {p : Payload} (sound : p.Sound) (exchanged : p.use = .exchanged)
    (single : p.count = .fixed 1) (origin : String) (g : Gap) {l₁ l₂ : Ledger}
    (run : (Pass.payload p).run l₁ = (.ok (), l₂)) :
    ∃ sent v wire, l₂.delivered = l₁.delivered ++ sent ∧ Primitive p.kind sent v ∧
      encodeBody v = .ok sent ∧ Puts (Strict.passPayload origin g p) sent wire () := by
  obtain ⟨sent, v, delivered, primitive, -⟩ :=
    Pass.payload_single sound (by rw [exchanged]; rfl) single run
  have encoded := Tagged.encodeBody_of_primitive primitive
  obtain ⟨wire, _, puts, _⟩ :=
    Codec.single_exchanged sound exchanged single origin g primitive.kind_eq encoded
  exact ⟨sent, v, wire, delivered, primitive, encoded, puts⟩

theorem item_restores {p : Payload} (sound : p.Sound) (exchanged : p.use = .exchanged)
    (single : p.count = .fixed 1) : (data [] p).Restores l depth (some p.kind) := by
  intro l₁ l₂ run
  obtain ⟨_, l', deliver, run⟩ := Pass.bind_ok run
  have nothing := (Pass.deliver_moves deliver).delivered
  rw [List.flatMap_nil, List.append_nil] at nothing
  obtain ⟨sent, v, wire, delivered, primitive, encoded, puts⟩ :=
    single_restored sound exchanged single (l.originOf ⟨[], .data p⟩) ⟨[], .data p⟩ run
  rw [nothing] at delivered
  exact ⟨sent, v, sent, wire, delivered,
    contributes_item (by rw [exchanged]; rfl) primitive, primitive.kind_eq, encoded, puts, puts⟩

theorem scalar_restores {p : Payload} (sound : p.Sound) (exchanged : p.use = .exchanged)
    (single : p.count = .fixed 1) : (data [Word.ofKind p.kind] p).Restores l depth item := by
  intro l₁ l₂ run
  obtain ⟨_, l', deliver, run⟩ := Pass.bind_ok run
  have tagged := (Pass.deliver_moves deliver).delivered
  rw [List.flatMap_singleton] at tagged
  obtain ⟨sent, v, wire, delivered, primitive, encoded, puts⟩ :=
    single_restored sound exchanged single (l.originOf ⟨[Word.ofKind p.kind], .data p⟩)
      ⟨[Word.ofKind p.kind], .data p⟩ run
  have whole : Puts (Strict.field l (data [Word.ofKind p.kind] p))
      ((Word.ofKind p.kind).toBytes ++ sent) wire () :=
    (Strict.puts_checkTag p.origin (Word.ofKind p.kind)).bind puts
  refine ⟨(Word.ofKind p.kind).toBytes ++ sent, v, sent, wire, ?_,
    contributes_scalar (by rw [exchanged]; rfl) primitive, ?_, encoded, whole, ?_⟩
  · rw [delivered, tagged, List.append_assoc]
  · simp [kind?, primitive.kind_eq, (Word.ofKind_announces p.kind).2]
  · rw [Value.word_of_kind primitive.kind_eq]
    exact whole

theorem vector_restores {p : Payload} (sound : p.Sound) (exchanged : p.use = .exchanged)
    (deep : 0 < depth) :
    (data (Word.ofList (some p.kind) :: Layout.Head.lengthWords p.count) p).Restores l depth
      item := by
  intro l₁ l₂ run
  obtain ⟨depth, rfl⟩ := Nat.exists_eq_succ_of_ne_zero (Nat.ne_of_gt deep)
  obtain ⟨_, l', deliver, run⟩ := Pass.bind_ok run
  have tagged := (Pass.deliver_moves deliver).delivered
  obtain ⟨sent, w, rest, vs, delivered, split, told, series⟩ :=
    Pass.payload_vector sound exchanged run
  have counted : ∀ n, p.count = .fixed n → vs.length = n := by
    intro n count
    rw [count, Layout.Head.lengthWords, List.flatMap_singleton] at split
    obtain rfl := Word.toBytes_inj (List.append_inj split (by simp)).1
    rw [Word.length_ofTag (sound.count count)] at told
    exact (Option.some.inj told).symm
  have alike := Value.shared_of_kinds series.kinds
  have encoded := Tagged.encodeItems_of_series series
  obtain ⟨wire, _, puts, _⟩ := vector_exchanged sound exchanged l series.kinds told counted encoded
  refine ⟨(Word.ofList (some p.kind)).toBytes ++ (w.toBytes ++ rest), .list vs, w.toBytes ++ rest,
    wire, ?_, contributes_vector (by rw [exchanged]; rfl) told series, ?_,
    Tagged.encodeBody_of_items alike told encoded, puts _ (.inl rfl),
    puts _ (Value.word_of_shared alike)⟩
  · rw [delivered, tagged, List.flatMap_cons, ← split]
    simp only [List.append_assoc]
  · simp [kind?, Value.kind?, (Word.ofList_announces (some p.kind)).2.1]

/-- The items of a list share what its tag word says, unless there are none. -/
theorem alike_of_mixed {shared : Option Kind} {words : List Word} {fields : List Field}
    (declared : ∀ f ∈ fields, f.Declared shared) (visible : ∀ f ∈ fields, f.isVisible = true)
    (items : ∀ f ∈ fields, f.isItem = shared.isSome)
    (mixed : (group false (Word.ofList shared :: words) fields).mixed = true) {vs : List Value}
    (kinds : vs.map Value.kind? = fields.map kind?) : Value.shared vs = shared ∨ vs = [] := by
  cases shared with
  | none =>
    left
    rw [Field.mixed, Bool.and_eq_true] at mixed
    rw [shared_of_kinds kinds]
    simpa using mixed.1
  | some kind =>
    apply Value.shared_of_kinds
    intro v member
    have known : v.kind? ∈ fields.map kind? := kinds ▸ List.mem_map_of_mem member
    obtain ⟨f, f_member, same⟩ := List.mem_map.mp known
    have f_declared := declared f f_member
    have f_visible := visible f f_member
    have is_item := items f f_member
    rw [← same]
    cases f_declared with
    | item => rfl
    | derive | scalar | vector | hiddenGroup | group => cases is_item
    | hidden _ hidden => simp [isVisible, hidden] at f_visible

/-- A list restores if its fields do, all of them visible and alike. -/
theorem group_restores {shared : Option Kind} {inner : List Field}
    (each : ∀ f ∈ inner, f.Restores l depth shared) (declared : ∀ f ∈ inner, f.Declared shared)
    (plain : ∀ f ∈ inner, f.isPlain = true) (all_items : ∀ f ∈ inner, f.isItem = shared.isSome)
    (bound : inner.countP isVisible < 0x80000000)
    (mixed : (group false [Word.ofList shared, Word.ofTag (inner.countP isVisible)] inner).mixed =
      true) :
    (group false [Word.ofList shared, Word.ofTag (inner.countP isVisible)] inner).Restores l
      (depth + 1) item := by
  have visible : ∀ f ∈ inner, f.isVisible = true := by
    intro f member
    exact isVisible_of_plain (plain f member)
  intro l₁ l₂ run
  obtain ⟨_, l', deliver, run⟩ := Pass.bind_ok run
  have tagged := (Pass.deliver_moves deliver).delivered
  obtain ⟨sent, vs, bytes, wire, delivered, contribute, kinds, encoded, puts, puts_encoded⟩ :=
    fields_restore each all_items run
  have alike := alike_of_mixed declared visible all_items mixed kinds
  have length : vs.length = inner.countP isVisible := by
    rw [List.countP_eq_length.mpr visible]
    simpa using congrArg List.length kinds
  have told : (Word.ofTag (inner.countP isVisible)).length? = some vs.length := by
    rw [length]
    exact Word.length_ofTag bound
  have received := Value.word_of_shared alike
  rw [length] at received
  have own : Word.ofList shared = Word.ofList shared ∨
      (Word.ofList shared).isList = true ∧ inner.countP isVisible = 0 := .inl rfl
  refine ⟨_, .list vs, _, wire, ?_,
    contributes_group contribute (fun f member _ => all_items f member) bound, rfl,
    Tagged.encodeBody_of_items alike told encoded, ?_, ?_⟩
  · rw [delivered, tagged]
    simp
  · have whole := (Strict.puts_head own l.grammar bound).bind
      (q := fun _ => Strict.fields l inner) puts
    rw [List.append_assoc] at whole
    exact whole
  · have whole := (Strict.puts_head received l.grammar bound).bind
      (q := fun _ => Strict.fields l inner) puts_encoded
    rw [List.append_assoc] at whole
    exact whole

/-- Every declared field without directives restores, by induction on how it is declared. -/
theorem restores {f : Field} (declared : f.Declared item) (plain : f.isPlain = true)
    (items : f.itemsOnly = true) (mixed : f.mixed = true) (shallow : f.depth ≤ depth) :
    f.Restores l depth item := by
  induction declared generalizing depth with
  | derive => cases plain
  | hidden sound hidden =>
    have exchanged : _ = Use.exchanged := of_decide_eq_true plain
    rw [exchanged] at hidden
    cases hidden
  | item sound _ single => exact item_restores sound (of_decide_eq_true plain) single
  | scalar sound _ single => exact scalar_restores sound (of_decide_eq_true plain) single
  | vector sound exchanged =>
    rw [depth_vector] at shallow
    exact vector_restores sound exchanged shallow
  | hiddenGroup => cases plain
  | @group _ shared inner declared bound ih =>
    obtain ⟨depth, rfl⟩ : ∃ d, depth = d + 1 :=
      Nat.exists_eq_add_of_le' (Nat.le_trans (Nat.le_add_left 1 _) shallow)
    have inner_plain := allPlain_iff.mp plain
    have inner_shallow := allDepth_le.mp (Nat.le_of_succ_le_succ shallow)
    have inner_items := allItemsOnly_iff.mp (Bool.and_eq_true_iff.mp items).2
    have inner_mixed := allMixed_iff.mp (Bool.and_eq_true_iff.mp mixed).2
    have all_items : ∀ f ∈ inner, f.isItem = shared.isSome := by
      intro f member
      exact alike_of_itemsOnly declared items member (isVisible_of_plain (inner_plain f member))
    have each : ∀ f ∈ inner, f.Restores l depth shared := by
      intro f member
      exact ih f member (inner_plain f member) (inner_items f member) (inner_mixed f member)
        (inner_shallow f member)
    exact group_restores each declared inner_plain all_items bound mixed

end Field

end TagWire
