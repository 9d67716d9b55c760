import TagWire.Tagged.Decode

/-!
# The tagged format

What the bytes of a tagged message are, apart from how they are read: the tag word of a list, then
the body of the list.

- `Tagged.Body`: the count of a list and its items, which share a tag or bring their own.
- `Tagged.Message`: a whole message.
- `Tagged.Series.split`: the first values of a series, and those behind them.
-/

namespace TagWire.Tagged

/-- The bytes of a primitive behind its tag word. -/
inductive Primitive : Kind → Bytes → Value → Prop
  | fixed {kind size payload} (known : kind.size? = some size) (length : payload.length = size) :
      Primitive kind payload (Value.ofPayload kind payload)
  | text {kind payload} {w : Word} (open_ : kind.size? = none) (length :
    w.length? = some payload.length) :
      Primitive kind (w.toBytes ++ payload) (Value.ofPayload kind payload)

/-- Values one after the other. -/
inductive Series (one : Bytes → Value → Prop) : Bytes → List Value → Prop
  | nil : Series one [] []
  | cons {bytes rest v vs} (first : one bytes v) (others : Series one rest vs) :
    Series one (bytes ++ rest) (v :: vs)

/-- The bytes behind a tag word, given what the body of a list is. -/
inductive Announced (body : Nat → Bytes → Value → Prop) (w : Word) : Bytes → Value → Prop
  | primitive {kind bytes v} (tag : Kind.ofTag? w.toNat = some kind) (bytes_of :
    Primitive kind bytes v) :
      Announced body w bytes v
  | list {bytes v} (no_kind : Kind.ofTag? w.toNat = none) (list : w.isList = true) (known :
    w.toNat < 512)
      (bytes_of : body w.unit bytes v) : Announced body w bytes v

/-- An item of a list whose items share a tag, or bring their own where it is zero. -/
def Item (body : Nat → Bytes → Value → Prop) (shared : Nat) (bytes : Bytes) (v : Value) : Prop :=
  if shared = 0 then ∃ (w : Word) (rest : Bytes), bytes = w.toBytes ++ rest ∧
    Announced body w rest v
  else Announced body (Word.ofTag shared) bytes v

/-- The body of a list in which lists nest no deeper than `depth`. -/
def Body : (depth shared : Nat) → Bytes → Value → Prop
  | 0 => fun _ _ _ => False
  | depth + 1 => fun shared bytes v =>
    ∃ (w : Word) (items : List Value) (rest : Bytes), v = .list items ∧
      w.length? = some items.length ∧
      bytes = w.toBytes ++ rest ∧ Series (Item (Body depth) shared) rest items

/-- A whole message. -/
def Message (bytes : Bytes) (v : Value) : Prop :=
  ∃ (w : Word) (rest : Bytes), bytes = w.toBytes ++ rest ∧ w.isList = true ∧
    Body maxDepth w.unit rest v

variable {body body' : Nat → Bytes → Value → Prop}

theorem Series.mono {one one' : Bytes → Value → Prop}
    (wider : ∀ {bytes v}, one bytes v → one' bytes v) {bytes : Bytes} {vs : List Value}
    (series : Series one bytes vs) : Series one' bytes vs := by
  induction series with
  | nil => exact .nil
  | cons first _ ih => exact .cons (wider first) ih

theorem Series.append {one : Bytes → Value → Prop} {bytes rest : Bytes} {vs others : List Value}
    (first : Series one bytes vs) (further : Series one rest others) :
    Series one (bytes ++ rest) (vs ++ others) := by
  induction first with
  | nil => exact further
  | cons first _ ih =>
    rw [List.append_assoc]
    exact .cons first ih

theorem Series.ne_nil {one : Bytes → Value → Prop}
    (some_bytes : ∀ {bytes v}, one bytes v → bytes ≠ []) {bytes : Bytes} {v : Value}
    {vs : List Value} (series : Series one bytes (v :: vs)) : bytes ≠ [] := by
  cases series with
  | cons first others => exact List.append_ne_nil_of_left_ne_nil (some_bytes first) _

/-- What may be announced with more lists around. -/
theorem Announced.mono (wider : ∀ {shared bytes v}, body shared bytes v → body' shared bytes v)
    {w : Word} {bytes : Bytes} {v : Value} (h : Announced body w bytes v) :
    Announced body' w bytes v := by
  cases h with
  | primitive tag bytes_of => exact .primitive tag bytes_of
  | list no_kind list known bytes_of => exact .list no_kind list known (wider bytes_of)

theorem Item.mono (wider : ∀ {shared bytes v}, body shared bytes v → body' shared bytes v)
    {shared : Nat} {bytes : Bytes} {v : Value} (h : Item body shared bytes v) :
    Item body' shared bytes v := by
  unfold Item at h ⊢
  split at h
  · rename_i own
    obtain ⟨w, rest, bytes_eq, announced⟩ := h
    rw [if_pos own]
    exact ⟨w, rest, bytes_eq, announced.mono wider⟩
  · rename_i own
    rw [if_neg own]
    exact h.mono wider

/-- A body may stand where lists nest deeper. -/
theorem Body.mono {depth depth' shared : Nat} (deeper : depth ≤ depth') {bytes : Bytes} {v : Value}
    (h : Body depth shared bytes v) : Body depth' shared bytes v := by
  induction depth generalizing depth' shared bytes v with
  | zero => exact h.elim
  | succ depth ih =>
    obtain ⟨depth', rfl⟩ := Nat.exists_eq_add_of_le' (Nat.le_trans (Nat.le_add_left 1 depth) deeper)
    obtain ⟨w, items, rest, v_eq, length, bytes_eq, series⟩ := h
    refine ⟨w, items, rest, v_eq, length, bytes_eq, series.mono fun item => item.mono ?_⟩
    exact ih (Nat.le_of_succ_le_succ deeper)

/-- A series is the series of its first values and the series of the others. -/
theorem Series.split {one : Bytes → Value → Prop} {bytes : Bytes} {vs : List Value}
    (series : Series one bytes vs) (n : Nat) :
    ∃ first rest, bytes = first ++ rest ∧ Series one first (vs.take n) ∧
      Series one rest (vs.drop n) := by
  induction series generalizing n with
  | nil => exact ⟨[], [], rfl, by simpa using Series.nil, by simpa using Series.nil⟩
  | @cons bytes others v vs head tail ih =>
    cases n with
    | zero => exact ⟨[], bytes ++ others, rfl, .nil, .cons head tail⟩
    | succ n =>
      obtain ⟨first, rest, rfl, series, series'⟩ := ih n
      exact ⟨bytes ++ first, rest, (List.append_assoc ..).symm, .cons head series, series'⟩

end TagWire.Tagged
