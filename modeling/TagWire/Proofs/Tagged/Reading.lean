import TagWire.Proofs.Stream.Supply
import TagWire.Proofs.Tagged.Format

/-!
# Reading the tagged format

A message is read alike from every stream that holds it, and what is behind it is left.

- `Partwise`: what holds of two readings of a message, if it holds of their parts.
- `Uniform`: a reading ends over a stream as it ends over the bytes that the stream holds.
- `Tagged.uniform_readMessage`: a message is read by the bytes of a stream alone.
- `Tagged.yields_message`: whole messages are read.
-/

namespace TagWire

/-- A relation between readings of one kind that holds of them if it holds of their parts. -/
structure Partwise {σ σ' : Type} [ByteStream σ] [ByteStream σ']
    (Q : ∀ α : Type, Reading σ α → Reading σ' α → Prop) : Prop where
  done : ∀ {α : Type} (a : α), Q α (pure a) (pure a)
  failed : ∀ {α : Type} {e : Error}, (∀ context missing, e ≠ .exhausted context missing) →
    Q α (throw e) (throw e)
  bind : ∀ {α β : Type} {m : Reading σ α} {m' : Reading σ' α} {f : α → Reading σ β}
    {f' : α → Reading σ' β}, Q α m m' → (∀ a, Q β (f a) (f' a)) → Q β (m >>= f) (m' >>= f')
  /-- A demand for bytes, which fails where some are lacking. -/
  demand : ∀ (context : String) (n : Nat) (missing : Bytes → Nat),
    Q Bytes
      (do
        let bytes ← Reading.upTo context n
        if bytes.length < n then throw (.exhausted context (missing bytes)) else return bytes)
      (do
        let bytes ← Reading.upTo context n
        if bytes.length < n then throw (.exhausted context (missing bytes)) else return bytes)

namespace Partwise

variable {σ σ' α : Type} [ByteStream σ] [ByteStream σ']
variable {Q : ∀ α : Type, Reading σ α → Reading σ' α → Prop} (part : Partwise Q)
include part

theorem exactly (context : String) (n : Nat) :
    Q Bytes (Reading.exactly context n) (Reading.exactly context n) :=
  part.demand context n fun bytes => n - bytes.length

theorem unit (context : String) (n : Nat) :
    Q Bytes (Reading.unit context n) (Reading.unit context n) :=
  part.demand context n fun _ => 0

theorem times {m : Reading σ α} {m' : Reading σ' α} (each : Q α m m') (n : Nat) :
    Q (List α) (Reading.times m n) (Reading.times m' n) := by
  induction n with
  | zero => exact part.done []
  | succ n ih =>
    exact part.bind each fun first => part.bind ih fun rest => part.done (first :: rest)

theorem readWord (context : String) :
    Q Word (Tagged.readWord context) (Tagged.readWord context) :=
  part.bind (part.unit context 4) fun bytes => part.done (Word.ofBytes bytes)

theorem readLength (context : String) :
    Q Nat (Tagged.readLength context) (Tagged.readLength context) := by
  apply part.bind (part.readWord context)
  intro w
  cases w.length? with
  | some n => exact part.done n
  | none => exact part.failed nofun

theorem readPrimitive (kind : Kind) :
    Q Value (Tagged.readPrimitive kind) (Tagged.readPrimitive kind) := by
  unfold Tagged.readPrimitive
  cases kind.size? with
  | some size =>
    exact part.bind (part.unit kind.name size) fun payload =>
      part.done (Value.ofPayload kind payload)
  | none =>
    apply part.bind (part.readLength kind.name)
    intro length
    exact part.bind (part.exactly kind.name length) fun payload =>
      part.done (Value.ofPayload kind payload)

theorem readItem {readList : Nat → Reading σ Value} {readList' : Nat → Reading σ' Value}
    (lists : ∀ shared, Q Value (readList shared) (readList' shared)) (w : Word) :
    Q Value (Tagged.readItem readList w) (Tagged.readItem readList' w) := by
  unfold Tagged.readItem
  cases Kind.ofTag? w.toNat with
  | some kind => exact part.readPrimitive kind
  | none =>
    dsimp only
    split
    · exact lists w.unit
    · exact part.failed nofun

/-- The body of a list, by induction on how deep lists may nest. -/
theorem readBody (depth shared : Nat) :
    Q Value (Tagged.readBody depth shared) (Tagged.readBody depth shared) := by
  induction depth generalizing shared with
  | zero => exact part.failed nofun
  | succ depth ih =>
    have tag : Q Word
        (if shared = 0 then Tagged.readWord "element tag" else pure (Word.ofTag shared))
        (if shared = 0 then Tagged.readWord "element tag" else pure (Word.ofTag shared)) := by
      split
      · exact part.readWord "element tag"
      · exact part.done (Word.ofTag shared)
    have item := part.bind tag fun w => part.readItem ih w
    exact part.bind (part.readLength "list count") fun count =>
      part.bind (part.times item count) fun items => part.done (Value.list items)

theorem readMessage : Q Value Tagged.readMessage Tagged.readMessage := by
  apply part.bind (part.readWord "top-level tag")
  intro w
  split
  · exact part.readBody Tagged.maxDepth w.unit
  · exact part.failed nofun

end Partwise

variable {σ α β : Type} [ByteStream σ]

/-- The error where a stream ends before a reading of `context` does. -/
def Supply.shortage (supply : Supply σ) (context : String) (missing : Nat) : Error :=
  match supply.failure with
  | none => .exhausted context missing
  | some e => e.toError context

theorem Supply.shortage_eq_getD (supply : Supply σ) (context : String) (missing : Nat) :
    supply.shortage context missing =
      (supply.failure.map (·.toError context)).getD (.exhausted context missing) := by
  unfold shortage
  cases supply.failure <;> rfl

/-- How a reading ends over a stream and over the bytes that the stream holds. -/
inductive Matches (supply : Supply σ) : Except Error α × σ → Except Error α × Bytes → Prop
  | ok {a s rest} (holds : supply.Holds rest s) : Matches supply (.ok a, s) (.ok a, rest)
  /-- The bytes are at fault. -/
  | fault {e s rest} (own : ∀ context missing, e ≠ .exhausted context missing)
      (holds : supply.Holds rest s) : Matches supply (.error e, s) (.error e, rest)
  /-- There are not enough bytes. -/
  | short {context missing s rest} (spent : supply.Spent s) :
      Matches supply (.error (supply.shortage context missing), s)
        (.error (.exhausted context missing), rest)

/-- The reading goes by the bytes that a stream holds, and by nothing else of it. -/
def Uniform (supply : Supply σ) (m : Reading σ α) (m' : Reading Bytes α) : Prop :=
  ∀ s bytes, supply.Holds bytes s → Matches supply (m.run s) (m'.run bytes)

namespace Uniform

variable {supply : Supply σ}

theorem done (a : α) : Uniform supply (pure a) (pure a) := fun _ _ holds => .ok holds

theorem failed {e : Error} (own : ∀ context missing, e ≠ .exhausted context missing) :
    Uniform supply (throw e : Reading σ α) (throw e) := fun _ _ holds => .fault own holds

theorem bind {m : Reading σ α} {m' : Reading Bytes α} {f : α → Reading σ β}
    {f' : α → Reading Bytes β} (first : Uniform supply m m')
    (second : ∀ a, Uniform supply (f a) (f' a)) : Uniform supply (m >>= f) (m' >>= f') := by
  intro s bytes holds
  have ends := first s bytes holds
  generalize hm : m.run s = answer, hm' : m'.run bytes = answer' at ends
  cases ends with
  | @ok a s' rest holds' =>
    rw [Reading.run_bind_ok hm, Reading.run_bind_ok hm']
    exact second a s' rest holds'
  | fault own holds' =>
    rw [Reading.run_bind_error hm, Reading.run_bind_error hm']
    exact .fault own holds'
  | short spent =>
    rw [Reading.run_bind_error hm, Reading.run_bind_error hm']
    exact .short spent

/-- A demand for bytes, which fails where some are lacking. -/
theorem demand (context : String) (n : Nat) (missing : Bytes → Nat) :
    Uniform supply
      (do
        let bytes ← Reading.upTo context n
        if bytes.length < n then throw (.exhausted context (missing bytes)) else return bytes)
      (do
        let bytes ← Reading.upTo context n
        if bytes.length < n then throw (.exhausted context (missing bytes)) else return bytes) := by
  intro s bytes holds
  rw [Reading.run_bind_ok (Reading.run_upTo context n bytes), List.length_take]
  by_cases enough : n ≤ bytes.length
  · have size : (bytes.take n).length = n := List.length_take_of_le enough
    rw [← List.take_append_drop n bytes] at holds
    obtain ⟨s', gathered, holds'⟩ := supply.gather_enough holds
    rw [size] at gathered
    rw [Reading.run_bind_ok (Reading.run_upTo_ok gathered context), if_neg (by omega), if_neg (by omega)]
    exact .ok holds'
  · have lacking : bytes.length < n := Nat.lt_of_not_le enough
    obtain ⟨s', gathered, spent⟩ := supply.gather_short holds lacking
    rw [if_pos (by omega), List.take_of_length_le (Nat.le_of_lt lacking),
      Reading.run_bind_ending (Reading.run_upTo_gather gathered context)
        (by rw [if_pos lacking, Reading.run_throw]),
      ← supply.shortage_eq_getD]
    exact .short spent

theorem partwise (supply : Supply σ) : Partwise fun _ => Uniform supply where
  done := done
  failed := failed
  bind := bind
  demand := demand

end Uniform

namespace Tagged

/-- A message is read by the bytes of a stream alone. -/
theorem uniform_readMessage {supply : Supply σ} :
    Uniform supply (readMessage : Reading σ Value) readMessage :=
  (Uniform.partwise supply).readMessage

/-- The reading takes `bytes` from the front of bytes and gives `a`. -/
def Yields (m : Reading Bytes α) (bytes : Bytes) (a : α) : Prop :=
  ∀ rest, m.run (bytes ++ rest) = (.ok a, rest)

namespace Yields

theorem done (a : α) : Yields (pure a) [] a := fun _ => rfl

theorem bind {m : Reading Bytes α} {f : α → Reading Bytes β} {bytes more : Bytes} {a : α} {b : β}
    (first : Yields m bytes a) (second : Yields (f a) more b) :
    Yields (m >>= f) (bytes ++ more) b := by
  intro rest
  have run := first (more ++ rest)
  rw [List.append_assoc, Reading.run_bind_ok run]
  exact second rest

/-- A reading, and behind it one that takes nothing. -/
theorem bind_silent {m : Reading Bytes α} {f : α → Reading Bytes β} {bytes : Bytes} {a : α}
    {b : β} (first : Yields m bytes a) (second : Yields (f a) [] b) : Yields (m >>= f) bytes b := by
  have both := first.bind second
  rwa [List.append_nil] at both

theorem upTo (context : String) {bytes : Bytes} {n : Nat} (size : bytes.length = n) :
    Yields (Reading.upTo context n) bytes bytes := by
  intro rest
  rw [Reading.run_upTo, List.take_left' size, List.drop_left' size]

theorem exactly (context : String) {bytes : Bytes} {n : Nat} (size : bytes.length = n) :
    Yields (Reading.exactly context n) bytes bytes := by
  apply (upTo context size).bind_silent
  rw [if_neg (by omega)]
  exact done bytes

theorem unit (context : String) {bytes : Bytes} {n : Nat} (size : bytes.length = n) :
    Yields (Reading.unit context n) bytes bytes := by
  apply (upTo context size).bind_silent
  rw [if_neg (by omega)]
  exact done bytes

end Yields

theorem yields_word (context : String) (w : Word) : Yields (readWord context) w.toBytes w := by
  apply (Yields.unit context w.length_toBytes).bind_silent
  rw [Word.ofBytes_toBytes]
  exact .done w

theorem yields_length (context : String) {w : Word} {n : Nat} (length : w.length? = some n) :
    Yields (readLength context) w.toBytes n := by
  apply (yields_word context w).bind_silent
  rw [length]
  exact .done n

theorem yields_primitive {kind : Kind} {bytes : Bytes} {v : Value} (h : Primitive kind bytes v) :
    Yields (readPrimitive kind) bytes v := by
  cases h with
  | fixed known length =>
    rw [readPrimitive, known]
    exact (Yields.unit kind.name length).bind_silent (.done _)
  | text open_ length =>
    rw [readPrimitive, open_]
    exact (yields_length kind.name length).bind
      ((Yields.exactly kind.name rfl).bind_silent (.done _))

theorem yields_announced {body : Nat → Bytes → Value → Prop}
    {readList : Nat → Reading Bytes Value} {w : Word} {bytes : Bytes} {v : Value}
    (h : Announced body w bytes v)
    (lists : ∀ {shared bytes v}, body shared bytes v → Yields (readList shared) bytes v) :
    Yields (readItem readList w) bytes v := by
  cases h with
  | primitive tag bytes_of =>
    rw [readItem, tag]
    exact yields_primitive bytes_of
  | list no_kind list known bytes_of =>
    rw [readItem, no_kind]
    dsimp only
    rw [if_pos ⟨list, known⟩]
    exact lists bytes_of

theorem yields_series {one : Bytes → Value → Prop} {m : Reading Bytes Value}
    (each : ∀ {bytes v}, one bytes v → Yields m bytes v) {bytes : Bytes} {vs : List Value}
    (h : Series one bytes vs) : Yields (Reading.times m vs.length) bytes vs := by
  induction h with
  | nil => exact .done []
  | cons first _ ih => exact (each first).bind (ih.bind_silent (.done _))

/-- The body of a list, by induction on how deep lists may nest. -/
theorem yields_body {depth shared : Nat} {bytes : Bytes} {v : Value}
    (h : Body depth shared bytes v) :
    Yields (readBody depth shared) bytes v := by
  induction depth generalizing shared bytes v with
  | zero => exact h.elim
  | succ depth ih =>
    obtain ⟨w, items, rest, rfl, length, rfl, series⟩ := h
    rw [readBody]
    refine (yields_length _ length).bind
      ((yields_series (fun item => ?_) series).bind_silent (.done _))
    unfold Item at item
    split at item
    · rename_i own
      obtain ⟨w, rest, rfl, announced⟩ := item
      rw [if_pos own]
      exact (yields_word _ w).bind (yields_announced announced ih)
    · rename_i own
      rw [if_neg own]
      exact (Yields.done (Word.ofTag shared)).bind (yields_announced item ih)

/-- No body begins with another one, however deep the lists in them may nest. -/
theorem body_unique {depth depth' shared : Nat} {first rest : Bytes} {v v' : Value}
    (h : Body depth shared (first ++ rest) v) (h' : Body depth' shared first v') :
    v = v' ∧ rest = [] := by
  have whole := yields_body (h.mono (Nat.le_max_left depth depth')) []
  have part := yields_body (h'.mono (Nat.le_max_right depth depth')) rest
  rw [List.append_nil, part] at whole
  cases whole
  exact ⟨rfl, rfl⟩

/-- A message is read, and what is behind it is left. -/
theorem yields_message {bytes : Bytes} {v : Value} (h : Message bytes v) :
    Yields readMessage bytes v := by
  obtain ⟨w, rest, rfl, list, body⟩ := h
  apply (yields_word _ w).bind
  rw [if_pos list]
  exact yields_body body

theorem decode_message {bytes : Bytes} {v : Value} (h : Message bytes v) :
    (readMessage : Reading Bytes Value).run bytes = (.ok v, []) := by
  have run := yields_message h []
  rwa [List.append_nil] at run

/-- A message begins with the tag word of a list. -/
theorem list_of_readMessage {bytes rest : Bytes} {v : Value}
    (read : readMessage.run bytes = (.ok v, rest)) :
    ∃ (w : Word) (more : Bytes), bytes = w.toBytes ++ more ∧ w.isList = true := by
  by_cases enough : 4 ≤ bytes.length
  · have size : (bytes.take 4).length = 4 := List.length_take_of_le enough
    refine ⟨Word.ofBytes (bytes.take 4), bytes.drop 4, ?_, ?_⟩
    · rw [Word.toBytes_ofBytes size, List.take_append_drop]
    · have word : (readWord "top-level tag" : Reading Bytes Word).run bytes =
          (.ok (Word.ofBytes (bytes.take 4)), bytes.drop 4) := by
        have taken := yields_word "top-level tag" (Word.ofBytes (bytes.take 4)) (bytes.drop 4)
        rwa [Word.toBytes_ofBytes size, List.take_append_drop] at taken
      rw [readMessage, Reading.run_bind_ok word] at read
      cases list : (Word.ofBytes (bytes.take 4)).isList with
      | true => rfl
      | false =>
        rw [list, if_neg Bool.false_ne_true] at read
        cases read
  · have short : (Reading.unit "top-level tag" 4 : Reading Bytes Bytes).run bytes =
        (.error (.exhausted "top-level tag" 0), bytes.drop 4) := by
      rw [Reading.unit, Reading.run_bind_ok (Reading.run_upTo "top-level tag" 4 bytes),
        if_pos (by rw [List.length_take]; omega)]
      rfl
    have none_read : (readWord "top-level tag" : Reading Bytes Word).run bytes =
        (.error (.exhausted "top-level tag" 0), bytes.drop 4) := Reading.run_bind_error short
    rw [readMessage, Reading.run_bind_error none_read] at read
    cases read

end Tagged

end TagWire
