import TagWire.Proofs.Tagged.Contribution
import TagWire.Tagged.Blocks

/-!
# The bytes of values

What an encoded value consists of, and what its primitives are read as.

- `Value.ofPayload_payload`: a primitive is what its bytes stand for.
- `Tagged.series_of_encodeItems`: items of one kind are a series of primitives.
- `Tagged.encode_ok`: an encoded value is a list, behind its tag word.
-/

namespace TagWire

namespace Value

theorem length_payload {v : Value} {kind : Kind} {size : Nat} (kind_eq : v.kind? = some kind)
    (known : kind.size? = some size) :
    v.payload.length = size := by
  cases v with
  | int8 | int16 | int32 | int64 | vocab | float32 | float64 =>
    cases kind_eq
    cases known
    simp [payload]
  | string | blob =>
    cases kind_eq
    cases known
  | list => cases kind_eq

/-- A primitive is what its bytes stand for. -/
theorem ofPayload_payload {v : Value} {kind : Kind} (kind_eq : v.kind? = some kind) :
    ofPayload kind v.payload = v := by
  cases v with
  | int8 v =>
    cases kind_eq
    have range : v.toInt.bmod (Bytes.card 1) = v.toInt := v.toInt_bmod
    rw [ofPayload, payload, Bytes.toInt_ofInt, range, Int8.ofInt_toInt]
  | int16 v =>
    cases kind_eq
    have range : v.toInt.bmod (Bytes.card 2) = v.toInt := v.toInt_bmod
    rw [ofPayload, payload, Bytes.toInt_ofInt, range, Int16.ofInt_toInt]
  | int32 v =>
    cases kind_eq
    have range : v.toInt.bmod (Bytes.card 4) = v.toInt := v.toInt_bmod
    rw [ofPayload, payload, Bytes.toInt_ofInt, range, Int32.ofInt_toInt]
  | int64 v =>
    cases kind_eq
    have range : v.toInt.bmod (Bytes.card 8) = v.toInt := v.toInt_bmod
    rw [ofPayload, payload, Bytes.toInt_ofInt, range, Int64.ofInt_toInt]
  | vocab code =>
    cases kind_eq
    rw [ofPayload, payload, Word.ofBytes_toBytes]
  | float32 bits =>
    cases kind_eq
    have bound : bits.toNat < Bytes.card 4 := bits.toNat_lt
    rw [ofPayload, payload, Bytes.toNat_ofNat, Nat.mod_eq_of_lt bound, UInt32.ofNat_toNat]
  | float64 bits =>
    cases kind_eq
    have bound : bits.toNat < Bytes.card 8 := bits.toNat_lt
    rw [ofPayload, payload, Bytes.toNat_ofNat, Nat.mod_eq_of_lt bound, UInt64.ofNat_toNat]
  | string | blob =>
    cases kind_eq
    rfl
  | list => cases kind_eq

/-- Bytes of the right number are those of the primitive that they stand for. -/
theorem payload_ofPayload {kind : Kind} {size : Nat} (known : kind.size? = some size)
    {bytes : Bytes} (length : bytes.length = size) : (ofPayload kind bytes).payload = bytes := by
  have whole := Bytes.ofInt_toInt bytes
  cases kind with
  | int8 | int16 | int32 | int64 =>
    cases known
    have range : (Bytes.toInt bytes).bmod (Bytes.card bytes.length) = Bytes.toInt bytes :=
      Int.bmod_bmod
    rw [length] at range whole
    simp only [ofPayload, payload, Int8.toInt_ofInt, Int16.toInt_ofInt, Int32.toInt_ofInt,
      Int64.toInt_ofInt]
    exact (congrArg _ range).trans whole
  | vocab =>
    cases known
    exact Word.toBytes_ofBytes length
  | float32 =>
    cases known
    exact Word.toBytes_ofBytes length
  | float64 =>
    cases known
    have bound : Bytes.toNat bytes < UInt64.size := by
      have := Bytes.toNat_lt bytes
      rw [length] at this
      exact this
    rw [ofPayload, payload, UInt64.toNat_ofNat_of_lt' bound, ← length, Bytes.ofNat_toNat]
  | string | blob => cases known

theorem kind_ofPayload (kind : Kind) (payload : Bytes) :
    (ofPayload kind payload).kind? = some kind := by
  cases kind <;> rfl

theorem word_of_kind {v : Value} {kind : Kind} (h : v.kind? = some kind) :
    v.word = Word.ofKind kind := by
  cases v <;> cases h <;> rfl

/-- The tag word of a list is no tag word of a primitive. -/
theorem kind_of_word {v : Value} {kind : Kind} (h : v.word = Word.ofKind kind) :
    v.kind? = some kind := by
  have tag := (Word.ofKind_announces kind).1
  rw [← h] at tag
  cases known : v.kind? with
  | some kind' =>
    rw [word_of_kind known, (Word.ofKind_announces kind').1] at tag
    exact tag
  | none =>
    cases v with
    | list items =>
      rw [word, (Word.ofList_announces _).1] at tag
      cases tag
    | _ => cases known

theorem isList_word (v : Value) : v.word.isList = v.isList := by
  cases known : v.kind? with
  | some kind =>
    rw [word_of_kind known, (Word.ofKind_announces kind).2]
    cases v with
    | list => cases known
    | _ => rfl
  | none =>
    cases v with
    | list items => exact (Word.ofList_announces _).2.1
    | _ => cases known

theorem kinds_of_shared {items : List Value} {kind : Kind} (h : shared items = some kind) :
    ∀ v ∈ items, v.kind? = some kind := by
  cases items with
  | nil => cases h
  | cons first rest =>
    obtain ⟨first_kind, others⟩ := Option.filter_eq_some_iff.mp h
    intro v member
    rcases List.mem_cons.mp member with rfl | behind
    · exact first_kind
    · simpa using List.all_eq_true.mp others v behind

/-- Items of one kind share it, if there are any. -/
theorem shared_of_kinds {items : List Value} {kind : Kind}
    (kinds : ∀ v ∈ items, v.kind? = some kind) : shared items = some kind ∨ items = [] := by
  cases items with
  | nil => exact .inr rfl
  | cons first rest =>
    left
    rw [shared, kinds first List.mem_cons_self]
    refine Option.filter_eq_some_iff.mpr ⟨rfl, List.all_eq_true.mpr fun v member => ?_⟩
    exact decide_eq_true (kinds v (List.mem_cons_of_mem _ member))

/-- The tag word of a list is the one of the kind that its items share, if there are any. -/
theorem word_of_shared {items : List Value} {kind : Option Kind}
    (alike : shared items = kind ∨ items = []) :
    (list items).word = Word.ofList kind ∨ (list items).word.isList = true ∧ items.length = 0 := by
  rcases alike with rfl | rfl
  · exact .inl rfl
  · exact .inr ⟨rfl, rfl⟩

end Value

namespace Word

theorem toBytes_ofTag {n : Nat} (bound : n < 0x80000000) : (ofTag n).toBytes = Bytes.ofNat 4 n := by
  have same := (toNat_of_length (length_ofTag bound)).1
  rw [toBytes, same]

/-- The word that tells a length is the only one that does. -/
theorem eq_ofTag {w : Word} {n : Nat} (told : w.length? = some n) : w = ofTag n := by
  obtain ⟨same, bound⟩ := toNat_of_length told
  have same' := (toNat_of_length (length_ofTag bound)).1
  exact UInt32.toNat_inj.mp (same.trans same'.symm)

end Word

namespace Tagged

theorem Primitive.kind_eq {kind : Kind} {bytes : Bytes} {v : Value} (h : Primitive kind bytes v) :
    v.kind? = some kind := by
  cases h with
  | fixed | text => exact Value.kind_ofPayload kind _

/-- A list behind its tag word is a whole message. -/
theorem Announced.message {w : Word} {bytes : Bytes} {items : List Value}
    (announced : Announced (Body maxDepth) w bytes (.list items)) :
    Message (w.toBytes ++ bytes) (.list items) := by
  cases announced with
  | primitive _ bytes_of =>
    have kind := bytes_of.kind_eq
    cases kind
  | list _ list _ body => exact ⟨w, bytes, rfl, list, body⟩

/-- A length is a word that tells it. -/
theorem encodeLength_ok {n : Nat} {bytes : Bytes} (encoded : encodeLength n = .ok bytes) :
    ∃ w : Word, w.length? = some n ∧ bytes = w.toBytes := by
  unfold encodeLength at encoded
  split at encoded
  · rename_i bound
    cases encoded
    exact ⟨Word.ofTag n, Word.length_ofTag bound, (Word.toBytes_ofTag bound).symm⟩
  · cases encoded

theorem encodeBody_text {kind : Kind} {text bytes : Bytes} (open_ : kind.size? = none)
    (encoded : (do
      let length ← encodeLength text.length
      return length ++ text : Except Error Bytes) = .ok bytes) :
    Primitive kind bytes (Value.ofPayload kind text) := by
  cases told : encodeLength text.length with
  | error e =>
    rw [told] at encoded
    cases encoded
  | ok length =>
    rw [told] at encoded
    cases encoded
    obtain ⟨w, length_eq, rfl⟩ := encodeLength_ok told
    exact .text open_ length_eq

/-- An encoded primitive is one of its kind. -/
theorem primitive_of_encodeBody {v : Value} {kind : Kind} {bytes : Bytes}
    (kind_eq : v.kind? = some kind) (encoded : encodeBody v = .ok bytes) :
    Primitive kind bytes v := by
  have same := Value.ofPayload_payload kind_eq
  cases v with
  | int8 | int16 | int32 | int64 | vocab | float32 | float64 =>
    rw [← same]
    cases kind_eq
    cases encoded
    exact .fixed rfl (Value.length_payload rfl rfl)
  | string text =>
    cases kind_eq
    exact encodeBody_text rfl encoded
  | blob bytes =>
    cases kind_eq
    exact encodeBody_text rfl encoded
  | list => cases kind_eq

/-- A length that a word tells is written as that word. -/
theorem encodeLength_told {n : Nat} {w : Word} (told : w.length? = some n) :
    encodeLength n = .ok w.toBytes := by
  obtain ⟨same, bound⟩ := Word.toNat_of_length told
  rw [encodeLength, if_pos bound, Word.toBytes, same]

/-- A primitive is encoded as the bytes that it was read from. -/
theorem encodeBody_of_primitive {kind : Kind} {bytes : Bytes} {v : Value}
    (primitive : Primitive kind bytes v) : encodeBody v = .ok bytes := by
  cases primitive with
  | fixed known length =>
    have same := Value.payload_ofPayload known length
    cases kind with
    | string | blob => cases known
    | _ => exact congrArg Except.ok same
  | text open_ told =>
    have length := encodeLength_told told
    cases kind with
    | string | blob =>
      rw [Value.ofPayload, encodeBody, length]
      rfl
    | _ => cases open_

theorem encodeItems_of_cons {isShared : Bool} {v : Value} {rest : List Value}
    {body others : Bytes} (first : encodeBody v = .ok body)
    (further : encodeItems isShared rest = .ok others) :
    encodeItems isShared (v :: rest) =
      .ok ((if isShared then [] else v.word.toBytes) ++ body ++ others) := by
  rw [encodeItems, first, further]
  rfl

/-- Primitives one after the other are encoded as the bytes that they were read from. -/
theorem encodeItems_of_series {kind : Kind} {bytes : Bytes} {vs : List Value}
    (series : Series (Primitive kind) bytes vs) : encodeItems true vs = .ok bytes := by
  induction series with
  | nil => rfl
  | cons first _ ih => exact encodeItems_of_cons (encodeBody_of_primitive first) ih

/-- A list is encoded as the word that tells the number of its items, and these. Where there are no
items, it does not matter what kind they would share. -/
theorem encodeBody_of_items {shared : Option Kind} {items : List Value} {w : Word} {rest : Bytes}
    (alike : Value.shared items = shared ∨ items = []) (told : w.length? = some items.length)
    (encoded : encodeItems shared.isSome items = .ok rest) :
    encodeBody (.list items) = .ok (w.toBytes ++ rest) := by
  have same : encodeItems (Value.shared items).isSome items = .ok rest := by
    rcases alike with rfl | rfl
    · exact encoded
    · exact encoded
  rw [encodeBody, encodeLength_told told, same]
  rfl

/-- Values one after the other have the kind of each. -/
theorem Series.kinds {kind : Kind} {bytes : Bytes} {vs : List Value}
    (series : Series (Primitive kind) bytes vs) : ∀ v ∈ vs, v.kind? = some kind := by
  induction series with
  | nil => exact fun v member => absurd member List.not_mem_nil
  | cons first _ ih => exact List.forall_mem_cons.mpr ⟨first.kind_eq, ih⟩

theorem encodeItems_cons {isShared : Bool} {v : Value} {rest : List Value} {bytes : Bytes}
    (encoded : encodeItems isShared (v :: rest) = .ok bytes) :
    ∃ body others, encodeBody v = .ok body ∧ encodeItems isShared rest = .ok others ∧
      bytes = (if isShared then [] else v.word.toBytes) ++ body ++ others := by
  rw [encodeItems] at encoded
  cases first : encodeBody v with
  | error e =>
    rw [first] at encoded
    cases encoded
  | ok body =>
    cases further : encodeItems isShared rest with
    | error e =>
      rw [first, further] at encoded
      cases encoded
    | ok others =>
      rw [first, further] at encoded
      cases encoded
      exact ⟨body, others, rfl, rfl, rfl⟩

theorem encodeItems_single {v : Value} {bytes : Bytes} (encoded : encodeBody v = .ok bytes) :
    encodeItems true [v] = .ok bytes := by
  rw [encodeItems, encoded]
  exact congrArg Except.ok (List.append_nil bytes)

/-- An encoded list is the number of its items and these. -/
theorem encodeBody_list {items : List Value} {bytes : Bytes}
    (encoded : encodeBody (.list items) = .ok bytes) :
    ∃ (w : Word) (rest : Bytes), w.length? = some items.length ∧
      encodeItems (Value.shared items).isSome items = .ok rest ∧ bytes = w.toBytes ++ rest := by
  rw [encodeBody] at encoded
  cases told : encodeLength items.length with
  | error e =>
    rw [told] at encoded
    cases encoded
  | ok count =>
    cases further : encodeItems (Value.shared items).isSome items with
    | error e =>
      rw [told, further] at encoded
      cases encoded
    | ok rest =>
      rw [told, further] at encoded
      cases encoded
      obtain ⟨w, length, rfl⟩ := encodeLength_ok told
      exact ⟨w, rest, length, rfl, rfl⟩

/-- An encoded message is a list, behind its tag word. -/
theorem encode_ok {v : Value} {bytes : Bytes} (encoded : encode v = .ok bytes) :
    ∃ items body, v = .list items ∧ encodeBody v = .ok body ∧ bytes = v.word.toBytes ++ body := by
  cases v with
  | list items =>
    rw [encode] at encoded
    cases built : encodeBody (.list items) with
    | error e =>
      rw [built] at encoded
      cases encoded
    | ok body =>
      rw [built] at encoded
      cases encoded
      exact ⟨items, body, rfl, rfl, rfl⟩
  | _ => cases encoded

/-- Encoded items of one kind are a series of primitives. -/
theorem series_of_encodeItems {kind : Kind} {vs : List Value}
    (kinds : ∀ v ∈ vs, v.kind? = some kind) {bytes : Bytes}
    (encoded : encodeItems true vs = .ok bytes) : Series (Primitive kind) bytes vs := by
  induction vs generalizing bytes with
  | nil =>
    cases encoded
    exact .nil
  | cons v rest ih =>
    obtain ⟨body, others, first, further, rfl⟩ := encodeItems_cons encoded
    exact .cons (primitive_of_encodeBody (kinds v List.mem_cons_self) first)
      (ih (fun v member => kinds v (List.mem_cons_of_mem _ member)) further)

/-- The blocks that bytes are cut into are these bytes. -/
theorem flatten_cut (size : Nat) (bytes : Bytes) : (cut size bytes).flatten = bytes := by
  induction bytes using cut.induct size with
  | case1 => rw [cut, List.flatten_nil]
  | case2 b rest ih => rw [cut, List.flatten_cons, ih, List.cons_append, List.take_append_drop]

end Tagged

end TagWire
