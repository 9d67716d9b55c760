import TagWire.Proofs.Tagged.Contribution
import TagWire.Proofs.Tagged.Reading

/-!
# What is accepted as a message

The format leaves no choice in the tag word of a list: the list bit, the tag that the items share,
and no other bit. The reader takes a few words more. In front of a message it does not look above
the list bit, and in front of an empty list it takes any tag for the one of the items that are not
there. Apart from this it accepts the format and nothing else.

- `Tagged.Written`: the format, by the words that may stand in front of a list.
- `Tagged.certifies_readMessage`: only messages are accepted.
- `Tagged.message_iff`: messages are the format with the words that are taken.
- `Tagged.readMessage_accepts`: what is read from a source, and what is refused.
-/

namespace TagWire.Tagged

variable {α β : Type}

/-- The words in front of a list of so many items that share a kind, or share none. -/
abbrev ListWord := Word → Option Kind → Nat → Prop

/-- The word that the format has. -/
def exactWord : ListWord := fun w shared _ => w = Word.ofList shared

/-- The words that are taken in front of an item that is a list. -/
def innerWord : ListWord := fun w shared n =>
  w.isList = true ∧ w.toNat < 512 ∧ (w.unit = Kind.shared shared ∨ n = 0)

/-- The words that are taken in front of a message. -/
def outerWord : ListWord := fun w shared n =>
  w.isList = true ∧ (w.unit = Kind.shared shared ∨ n = 0)

/-- An item of a list: the bare payload of the shared kind, or a value behind a word of its own. -/
inductive Entry (inner : ListWord) (lists : Option Kind → Bytes → List Value → Prop) :
    Option Kind → Bytes → Value → Prop
  | bare {kind bytes v} (payload : Primitive kind bytes v) : Entry inner lists (some kind) bytes v
  | tagged {kind bytes v} (payload : Primitive kind bytes v) :
      Entry inner lists none ((Word.ofKind kind).toBytes ++ bytes) v
  | list {w shared bytes vs} (word : inner w shared vs.length) (items : lists shared bytes vs) :
      Entry inner lists none (w.toBytes ++ bytes) (.list vs)

/-- The number of items of a list and these, where lists nest no deeper than `depth`. -/
def Listed (inner : ListWord) : (depth : Nat) → Option Kind → Bytes → List Value → Prop
  | 0 => fun _ _ _ => False
  | depth + 1 => fun shared bytes vs =>
    ∃ (w : Word) (rest : Bytes), w.length? = some vs.length ∧ bytes = w.toBytes ++ rest ∧
      Series (Entry inner (Listed inner depth) shared) rest vs

/-- A message, by the words that may stand in front of it and in front of the lists in it. -/
def Written (outer inner : ListWord) (bytes : Bytes) (v : Value) : Prop :=
  ∃ (w : Word) (shared : Option Kind) (rest : Bytes) (vs : List Value), v = .list vs ∧
    outer w shared vs.length ∧ bytes = w.toBytes ++ rest ∧ Listed inner maxDepth shared rest vs

/-- The word of the format is taken wherever a list may be. -/
theorem innerWord_of_exactWord {w : Word} {shared : Option Kind} {n : Nat}
    (h : exactWord w shared n) : innerWord w shared n := by
  have same : w = Word.ofList shared := h
  obtain ⟨-, list, known, unit⟩ := Word.ofList_announces shared
  subst same
  exact ⟨list, known, .inl unit⟩

theorem outerWord_of_innerWord {w : Word} {shared : Option Kind} {n : Nat}
    (h : innerWord w shared n) : outerWord w shared n := ⟨h.1, h.2.2⟩

section
variable {inner inner' : ListWord} (wider : ∀ {w shared n}, inner w shared n → inner' w shared n)
include wider

theorem Listed.mono {depth : Nat} {shared : Option Kind} {bytes : Bytes} {vs : List Value}
    (h : Listed inner depth shared bytes vs) : Listed inner' depth shared bytes vs := by
  induction depth generalizing shared bytes vs with
  | zero => exact h.elim
  | succ depth ih =>
    obtain ⟨w, rest, length, bytes_eq, series⟩ := h
    refine ⟨w, rest, length, bytes_eq, series.mono ?_⟩
    intro bytes v entry
    cases entry with
    | bare payload => exact .bare payload
    | tagged payload => exact .tagged payload
    | list word items => exact .list (wider word) (ih items)

/-- With more words more is a message. -/
theorem Written.mono {outer outer' : ListWord}
    (outer_wider : ∀ {w shared n}, outer w shared n → outer' w shared n) {bytes : Bytes} {v : Value}
    (h : Written outer inner bytes v) : Written outer' inner' bytes v := by
  obtain ⟨w, shared, rest, vs, v_eq, word, bytes_eq, listed⟩ := h
  exact ⟨w, shared, rest, vs, v_eq, outer_wider word, bytes_eq, listed.mono wider⟩

end

/-- With the words of the format in their place, a list is one of the format, of the same size. -/
theorem Listed.respelled {inner : ListWord} {depth : Nat} {shared : Option Kind} {bytes : Bytes}
    {vs : List Value} (h : Listed inner depth shared bytes vs) :
    ∃ bytes', Listed exactWord depth shared bytes' vs ∧ bytes'.length = bytes.length := by
  induction depth generalizing shared bytes vs with
  | zero => exact h.elim
  | succ depth ih =>
    obtain ⟨w, rest, length, rfl, series⟩ := h
    have items : ∃ rest', Series (Entry exactWord (Listed exactWord depth) shared) rest' vs ∧
        rest'.length = rest.length := by
      clear length
      induction series with
      | nil => exact ⟨[], .nil, rfl⟩
      | @cons bytes rest v vs first _ others =>
        obtain ⟨rest', series, size⟩ := others
        have entry : ∃ bytes', Entry exactWord (Listed exactWord depth) shared bytes' v ∧
            bytes'.length = bytes.length := by
          cases first with
          | bare payload => exact ⟨bytes, .bare payload, rfl⟩
          | tagged payload => exact ⟨_, .tagged payload, rfl⟩
          | @list w shared bytes vs _ items =>
            obtain ⟨bytes', listed, size⟩ := ih items
            refine ⟨(Word.ofList shared).toBytes ++ bytes', .list rfl listed, ?_⟩
            simp only [List.length_append, Word.length_toBytes, size]
        obtain ⟨bytes', entry, size'⟩ := entry
        exact ⟨bytes' ++ rest', .cons entry series, by simp only [List.length_append, size, size']⟩
    obtain ⟨rest', series, size⟩ := items
    exact ⟨w.toBytes ++ rest', ⟨w, rest', length, rfl, series⟩,
      by simp only [List.length_append, size]⟩

/-- Whatever words are taken, the values are those of the format. -/
theorem Written.respelled {outer inner : ListWord} {bytes : Bytes} {v : Value}
    (h : Written outer inner bytes v) :
    ∃ bytes', Written exactWord exactWord bytes' v ∧ bytes'.length = bytes.length := by
  obtain ⟨w, shared, rest, vs, v_eq, -, rfl, listed⟩ := h
  obtain ⟨rest', listed', size⟩ := listed.respelled
  refine ⟨(Word.ofList shared).toBytes ++ rest', ?_, ?_⟩
  · exact ⟨Word.ofList shared, shared, rest', vs, v_eq, rfl, rfl, listed'⟩
  · simp only [List.length_append, Word.length_toBytes, size]

/-- A tag below the list bit stands for itself. -/
theorem toNat_ofTag {tag : Nat} (low : tag < 256) : (Word.ofTag tag).toNat = tag :=
  UInt32.toNat_ofNat_of_lt' (Nat.lt_trans low (by decide))

/-- An item under a tag that is no zero is a primitive of that tag. -/
theorem primitive_of_item {body : Nat → Bytes → Value → Prop} {tag : Nat} (low : tag < 256)
    (shares : tag ≠ 0) {bytes : Bytes} {v : Value} (item : Item body tag bytes v) :
    ∃ kind, Kind.ofTag? tag = some kind ∧ Primitive kind bytes v := by
  rw [Item, if_neg shares] at item
  cases item with
  | primitive tag_eq payload =>
    rw [toNat_ofTag low] at tag_eq
    exact ⟨_, tag_eq, payload⟩
  | list _ list =>
    rw [Word.isList, toNat_ofTag low, Nat.div_eq_of_lt low] at list
    cases list

/-- Where a tag stands for no kind, no list with items shares it. -/
theorem empty_of_unknown {body : Nat → Bytes → Value → Prop} {tag : Nat} (low : tag < 256)
    (shares : tag ≠ 0) (unknown : Kind.ofTag? tag = none) {bytes : Bytes} {vs : List Value}
    (series : Series (Item body tag) bytes vs) : bytes = [] ∧ vs = [] := by
  cases series with
  | nil => exact ⟨rfl, rfl⟩
  | cons first others =>
    obtain ⟨kind, known, -⟩ := primitive_of_item low shares first
    rw [unknown] at known
    cases known

/-- The body of a list is the number of its items and these, by induction on how deep lists may
nest. -/
theorem listed_of_body {depth tag : Nat} (low : tag < 256) {bytes : Bytes} {v : Value}
    (h : Body depth tag bytes v) :
    ∃ shared vs, v = .list vs ∧ (tag = Kind.shared shared ∨ vs.length = 0) ∧
      Listed innerWord depth shared bytes vs := by
  induction depth generalizing tag bytes v with
  | zero => exact h.elim
  | succ depth ih =>
    obtain ⟨w, items, rest, rfl, length, rfl, series⟩ := h
    by_cases own : tag = 0
    · subst own
      refine ⟨none, items, rfl, .inl rfl, w, rest, length, rfl, series.mono ?_⟩
      intro bytes v item
      rw [Item, if_pos rfl] at item
      obtain ⟨w, rest, rfl, announced⟩ := item
      cases announced with
      | @primitive kind _ _ tag_eq payload =>
        have word : w = Word.ofKind kind := by
          rw [Word.ofKind, Word.ofTag, Kind.tag_ofTag? tag_eq, UInt32.ofNat_toNat]
        subst word
        exact .tagged payload
      | list _ list known body =>
        obtain ⟨shared, vs, rfl, agrees, listed⟩ := ih (Nat.mod_lt _ (by decide)) body
        exact .list ⟨list, known, agrees⟩ listed
    · cases known : Kind.ofTag? tag with
      | some kind =>
        have shared : tag = Kind.shared (some kind) := (Kind.tag_ofTag? known).symm
        refine ⟨some kind, items, rfl, .inl shared, w, rest, length, rfl, series.mono ?_⟩
        intro bytes v item
        obtain ⟨kind', known', payload⟩ := primitive_of_item low own item
        rw [known] at known'
        cases known'
        exact .bare payload
      | none =>
        obtain ⟨rfl, rfl⟩ := empty_of_unknown low own known series
        exact ⟨none, [], rfl, .inr rfl, w, [], length, rfl, .nil⟩

/-- The number of items and these are the body of a list under each tag that is taken for it. -/
theorem body_of_listed {depth : Nat} {shared : Option Kind} {bytes : Bytes} {vs : List Value}
    (h : Listed innerWord depth shared bytes vs) {tag : Nat}
    (agrees : tag = Kind.shared shared ∨ vs.length = 0) : Body depth tag bytes (.list vs) := by
  induction depth generalizing shared bytes vs tag with
  | zero => exact h.elim
  | succ depth ih =>
    obtain ⟨w, rest, length, rfl, series⟩ := h
    refine ⟨w, vs, rest, rfl, length, rfl, ?_⟩
    rcases agrees with rfl | none_there
    · apply series.mono
      intro bytes v entry
      cases entry with
      | bare payload => exact .of_primitive payload
      | tagged payload =>
        have own : Kind.shared none = 0 := rfl
        rw [Item, if_pos own]
        exact ⟨_, _, rfl, .of_primitive payload⟩
      | @list w shared bytes vs word items =>
        have own : Kind.shared none = 0 := rfl
        obtain ⟨list, known, agrees⟩ := word
        have no_kind : Kind.ofTag? w.toNat = none := by
          cases found : Kind.ofTag? w.toNat with
          | none => rfl
          | some kind =>
            rw [Word.not_list_of_ofTag? found] at list
            cases list
        rw [Item, if_pos own]
        exact ⟨w, bytes, rfl, .list no_kind list known (ih items agrees)⟩
    · obtain rfl : vs = [] := List.length_eq_zero_iff.mp none_there
      cases series
      exact .nil

/-- What the reader goes by is the format with the words that it takes. -/
theorem message_iff {bytes : Bytes} {v : Value} :
    Message bytes v ↔ Written outerWord innerWord bytes v := by
  constructor
  · rintro ⟨w, rest, rfl, list, body⟩
    obtain ⟨shared, vs, rfl, agrees, listed⟩ := listed_of_body (Nat.mod_lt _ (by decide)) body
    exact ⟨w, shared, rest, vs, rfl, ⟨list, agrees⟩, rfl, listed⟩
  · rintro ⟨w, shared, rest, vs, rfl, ⟨list, agrees⟩, rfl, listed⟩
    exact ⟨w, rest, rfl, list, body_of_listed listed agrees⟩

/-- Whatever the reading accepts, it takes bytes from the front that are as they should be. -/
def Certifies (m : Reading Bytes α) (valid : Bytes → α → Prop) : Prop :=
  ∀ bytes a rest, m.run bytes = (.ok a, rest) → ∃ taken, bytes = taken ++ rest ∧ valid taken a

namespace Certifies

theorem done (a : α) : Certifies (pure a) fun bytes b => bytes = [] ∧ b = a := by
  intro bytes b rest run
  cases run
  exact ⟨[], rfl, rfl, rfl⟩

theorem failed (e : Error) (valid : Bytes → α → Prop) :
    Certifies (throw e : Reading Bytes α) valid := by
  intro bytes a rest run
  cases run

theorem weaken {m : Reading Bytes α} {valid valid' : Bytes → α → Prop} (h : Certifies m valid)
    (weaker : ∀ bytes a, valid bytes a → valid' bytes a) : Certifies m valid' := by
  intro bytes a rest run
  obtain ⟨taken, split, ok⟩ := h bytes a rest run
  exact ⟨taken, split, weaker taken a ok⟩

/-- A reading and then another, where both parts together are as they should be. -/
theorem bind {m : Reading Bytes α} {f : α → Reading Bytes β} {first : Bytes → α → Prop}
    {second : α → Bytes → β → Prop} {valid : Bytes → β → Prop} (head : Certifies m first)
    (tail : ∀ a, Certifies (f a) (second a))
    (both : ∀ {bytes more a b}, first bytes a → second a more b → valid (bytes ++ more) b) :
    Certifies (m >>= f) valid := by
  intro bytes b rest run
  generalize began : m.run bytes = answer
  obtain ⟨e | a, left⟩ := answer
  · rw [Reading.run_bind_error began] at run
    cases run
  · rw [Reading.run_bind_ok began] at run
    obtain ⟨taken, rfl, ok⟩ := head bytes a left began
    obtain ⟨more, rfl, ok'⟩ := tail a left b rest run
    exact ⟨taken ++ more, (List.append_assoc ..).symm, both ok ok'⟩

/-- A reading whose result is only put in another form. -/
theorem map {m : Reading Bytes α} {f : α → β} {first : Bytes → α → Prop}
    {valid : Bytes → β → Prop} (head : Certifies m first)
    (result : ∀ {bytes a}, first bytes a → valid bytes (f a)) :
    Certifies (do return f (← m)) valid := by
  apply head.bind fun a => done (f a)
  rintro bytes more a b ok ⟨rfl, rfl⟩
  rw [List.append_nil]
  exact result ok

theorem demand (context : String) (n : Nat) (missing : Bytes → Nat) :
    Certifies
      (do
        let bytes ← Reading.upTo context n
        if bytes.length < n then throw (.exhausted context (missing bytes)) else return bytes)
      fun bytes a => a = bytes ∧ bytes.length = n := by
  intro bytes a rest run
  rw [Reading.run_bind_ok (Reading.run_upTo context n bytes)] at run
  split at run
  · cases run
  · rename_i enough
    cases run
    rw [List.length_take] at enough
    refine ⟨bytes.take n, (List.take_append_drop n bytes).symm, rfl, ?_⟩
    rw [List.length_take]
    omega

theorem exactly (context : String) (n : Nat) :
    Certifies (Reading.exactly context n) fun bytes a => a = bytes ∧ bytes.length = n :=
  demand context n fun bytes => n - bytes.length

theorem unit (context : String) (n : Nat) :
    Certifies (Reading.unit context n) fun bytes a => a = bytes ∧ bytes.length = n :=
  demand context n fun _ => 0

theorem times {m : Reading Bytes Value} {one : Bytes → Value → Prop} (each : Certifies m one)
    (n : Nat) :
    Certifies (Reading.times m n) fun bytes vs => vs.length = n ∧ Series one bytes vs := by
  induction n with
  | zero =>
    apply (done []).weaken
    rintro bytes vs ⟨rfl, rfl⟩
    exact ⟨rfl, .nil⟩
  | succ n ih =>
    have tail (first : Value) : Certifies (do return first :: (← Reading.times m n)) fun bytes vs =>
        ∃ rest, vs = first :: rest ∧ rest.length = n ∧ Series one bytes rest :=
      ih.map fun ok => ⟨_, rfl, ok⟩
    apply each.bind tail
    rintro bytes more v vs ok ⟨rest, rfl, length, series⟩
    exact ⟨congrArg (· + 1) length, .cons ok series⟩

end Certifies

theorem certifies_readWord (context : String) :
    Certifies (readWord context) fun bytes w => bytes = w.toBytes := by
  apply (Certifies.unit context 4).map
  rintro bytes _ ⟨rfl, size⟩
  exact (Word.toBytes_ofBytes size).symm

theorem certifies_readLength (context : String) :
    Certifies (readLength context) fun bytes n =>
      ∃ w : Word, w.length? = some n ∧ bytes = w.toBytes := by
  refine @Certifies.bind _ _ _ _ _ (fun (w : Word) (bytes : Bytes) n =>
    bytes = [] ∧ w.length? = some n) _ (certifies_readWord context) ?_ ?_
  · intro w
    cases length : w.length? with
    | some n =>
      apply (Certifies.done n).weaken
      rintro bytes _ ⟨rfl, rfl⟩
      exact ⟨rfl, rfl⟩
    | none => exact .failed _ _
  · rintro bytes more w n rfl ⟨rfl, length⟩
    exact ⟨w, length, List.append_nil _⟩

theorem certifies_readPrimitive (kind : Kind) :
    Certifies (readPrimitive kind) (Primitive kind) := by
  unfold readPrimitive
  cases known : kind.size? with
  | some size =>
    apply (Certifies.unit kind.name size).map
    rintro bytes _ ⟨rfl, length⟩
    exact .fixed known length
  | none =>
    have text (n : Nat) : Certifies
        (do return Value.ofPayload kind (← Reading.exactly kind.name n)) fun bytes v =>
          bytes.length = n ∧ v = Value.ofPayload kind bytes := by
      apply (Certifies.exactly kind.name n).map
      rintro bytes _ ⟨rfl, length⟩
      exact ⟨length, rfl⟩
    apply (certifies_readLength kind.name).bind text
    rintro _ payload n v ⟨w, length, rfl⟩ ⟨size, rfl⟩
    exact .text known (length.trans (congrArg some size.symm))

theorem certifies_readItem {readList : Nat → Reading Bytes Value}
    {body : Nat → Bytes → Value → Prop} (lists : ∀ tag, Certifies (readList tag) (body tag))
    (w : Word) : Certifies (readItem readList w) (Announced body w) := by
  unfold readItem
  cases tag : Kind.ofTag? w.toNat with
  | some kind => exact (certifies_readPrimitive kind).weaken fun bytes v => .primitive tag
  | none =>
    dsimp only
    split
    · rename_i list
      exact (lists w.unit).weaken fun bytes v => .list tag list.1 list.2
    · exact .failed _ _

/-- The body of a list, by induction on how deep lists may nest. -/
theorem certifies_readBody (depth tag : Nat) : Certifies (readBody depth tag) (Body depth tag) := by
  induction depth generalizing tag with
  | zero => exact .failed _ _
  | succ depth ih =>
    have item : Certifies
        ((if tag = 0 then readWord "element tag" else pure (Word.ofTag tag)) >>=
          readItem (readBody depth))
        (Item (Body depth) tag) := by
      unfold Item
      split
      · apply (certifies_readWord "element tag").bind fun w => certifies_readItem ih w
        rintro _ rest w v rfl announced
        exact ⟨w, rest, rfl, announced⟩
      · apply (Certifies.done (Word.ofTag tag)).bind fun w => certifies_readItem ih w
        rintro _ rest _ v ⟨rfl, rfl⟩ announced
        exact announced
    have items (n : Nat) : Certifies
        (do return Value.list (← Reading.times
          ((if tag = 0 then readWord "element tag" else pure (Word.ofTag tag)) >>=
            readItem (readBody depth)) n))
        fun bytes v =>
          ∃ vs, v = .list vs ∧ vs.length = n ∧ Series (Item (Body depth) tag) bytes vs :=
      (item.times n).map fun ok => ⟨_, rfl, ok⟩
    apply (certifies_readLength "list count").bind items
    rintro _ rest n v ⟨w, length, rfl⟩ ⟨vs, rfl, rfl, series⟩
    exact ⟨w, vs, rest, rfl, length, rfl, series⟩

/-- Only messages are accepted. -/
theorem certifies_readMessage : Certifies readMessage Message := by
  have behind (w : Word) : Certifies
      (if w.isList then readBody maxDepth w.unit
        else throw (.parse "tagged stream" ("top-level tag is '" ++ w.describe ++ "', not a list")))
      fun bytes v => w.isList = true ∧ Body maxDepth w.unit bytes v := by
    split
    · rename_i list
      exact (certifies_readBody maxDepth w.unit).weaken fun bytes v body => ⟨list, body⟩
    · exact .failed _ _
  apply (certifies_readWord "top-level tag").bind behind
  rintro _ rest w v rfl ⟨list, body⟩
  exact ⟨w, rest, rfl, list, body⟩

/-- Behind the tag word of a message nothing else stands than the list that is read. -/
theorem body_of_readMessage {depth : Nat} {w : Word} {body rest : Bytes} {v v' : Value}
    (read : readMessage.run (w.toBytes ++ (body ++ rest)) = (.ok v, []))
    (h : Body depth w.unit body v') : v = v' ∧ rest = [] := by
  obtain ⟨taken, split, w', more, rfl, -, whole⟩ := certifies_readMessage _ v [] read
  rw [List.append_nil] at split
  obtain ⟨word, rfl⟩ := List.append_inj split (by simp)
  obtain rfl := Word.toBytes_inj word
  exact body_unique whole h

/-- A message is accepted by a stream that holds it, and what is accepted is one. -/
theorem reads_iff {σ : Type} [ByteStream σ] {supply : Supply σ} {wire : Bytes} {s : σ}
    (holds : supply.Holds wire s) :
    (∀ p v rest, wire = p ++ rest → Message p v →
      ∃ s', readMessage.run s = (.ok v, s') ∧ supply.Holds rest s') ∧
    ∀ v s', readMessage.run s = (.ok v, s') →
      ∃ p rest, wire = p ++ rest ∧ Message p v ∧ supply.Holds rest s' := by
  have ends := uniform_readMessage s wire holds
  constructor
  · rintro p v rest rfl message
    rw [yields_message message rest] at ends
    generalize (readMessage : Reading σ Value).run s = answer at ends
    cases ends with
    | ok holds' => exact ⟨_, rfl, holds'⟩
  · intro v s' read
    rw [read] at ends
    generalize run : readMessage.run wire = answer at ends
    cases ends with
    | @ok _ _ rest holds' =>
      obtain ⟨p, split, message⟩ := certifies_readMessage wire v rest run
      exact ⟨p, rest, split, message, holds'⟩

/-- A value is read from a source just where the source begins with a message, whatever the pieces
in which its bytes arrive and whatever is behind them; the bytes of the message are used up, and no
others. A source that begins with no message gives an error. Every message of the format is one.
Where a message is none of the format, only tag words of lists are to blame: the same value has a
message of the same size in the format. -/
theorem readMessage_accepts {source : Source} (answers : source.Answers) {wire after : Bytes}
    {failure : Option ReadError} (contents : source.contents = ⟨wire, failure, after⟩) :
    (∀ v rest, (∃ source', readMessage.run source = (.ok v, source') ∧
        source'.contents = ⟨rest, failure, after⟩) ↔
      ∃ p, wire = p ++ rest ∧ Written outerWord innerWord p v) ∧
    ((∀ p v, p <+: wire → ¬ Written outerWord innerWord p v) →
      ∃ e source', readMessage.run source = (.error e, source')) ∧
    (∀ p v, Written exactWord exactWord p v → Written outerWord innerWord p v) ∧
    ∀ p v, Written outerWord innerWord p v →
      ∃ p', Written exactWord exactWord p' v ∧ p'.length = p.length := by
  have holds : (Supply.ofSource failure after).Holds wire source := ⟨answers, contents⟩
  obtain ⟨accepts, only⟩ := reads_iff holds
  refine ⟨fun v rest => ⟨?_, ?_⟩, ?_, ?_, fun p v => Written.respelled⟩
  · rintro ⟨source', read, left⟩
    obtain ⟨p, rest', split, message, -, left'⟩ := only v source' read
    have same : rest' = rest := congrArg Contents.wire (left'.symm.trans left)
    subst same
    exact ⟨p, split, message_iff.mp message⟩
  · rintro ⟨p, split, written⟩
    obtain ⟨source', read, -, left⟩ := accepts p v rest split (message_iff.mpr written)
    exact ⟨source', read, left⟩
  · intro none_written
    generalize run : (readMessage : Reading Source Value).run source = answer
    obtain ⟨e | v, source'⟩ := answer
    · exact ⟨e, source', rfl⟩
    · obtain ⟨p, rest, rfl, message, -⟩ := only v source' run
      exact absurd (message_iff.mp message) (none_written p v (List.prefix_append p rest))
  · intro p v written
    exact written.mono innerWord_of_exactWord fun word =>
      outerWord_of_innerWord (innerWord_of_exactWord word)

/-- A bit above the list bit is not seen in front of a message, nor in front of no items a tag that
no kind has. -/
example : decode [0, 5, 0, 0, 0, 0, 0, 0] = .ok (.list []) ∧
    decode [3, 1, 0, 0, 0, 0, 0, 0] = .ok (.list []) ∧
    decode [0, 1, 0, 0, 1, 0, 0, 0, 3, 1, 0, 0, 0, 0, 0, 0] = .ok (.list [.list []]) :=
  ⟨by cbv, by cbv, by cbv⟩

/-- One such message byte by byte from a source that fails behind it. -/
theorem readMessage_accepts_foreign :
    let source : Source := ⟨[.bytes [0, 5, 0, 0, 0, 0], .interruption, .bytes [0, 0, 9],
      .failure .other "torn"], some 1⟩
    source.Answers ∧
      source.contents = ⟨[0, 5, 0, 0, 0, 0, 0, 0, 9], some (.device .other "torn"), []⟩ ∧
      ¬ Written exactWord exactWord [0, 5, 0, 0, 0, 0, 0, 0] (.list []) ∧
      ∃ source', readMessage.run source = (.ok (.list []), source') ∧
        source'.contents = ⟨[9], some (.device .other "torn"), []⟩ := by
  intro source
  have answers : source.Answers := by simp [source, Source.Answers]
  have contents :
      source.contents = ⟨[0, 5, 0, 0, 0, 0, 0, 0, 9], some (.device .other "torn"), []⟩ := rfl
  have written : Written outerWord innerWord [0, 5, 0, 0, 0, 0, 0, 0] (.list []) :=
    ⟨0x500, none, [0, 0, 0, 0], [], rfl, ⟨by decide, .inr rfl⟩, rfl,
      0, [], rfl, rfl, .nil⟩
  refine ⟨answers, contents, ?_, ?_⟩
  · rintro ⟨w, shared, rest, vs, v_eq, rfl, bytes_eq, -⟩
    have front := congrArg (List.take 4) bytes_eq
    rcases shared with _ | _ | _ | _ | _ | _ | _ | _ | _ | _ <;> cases front
  · exact ((readMessage_accepts answers contents).1 (.list []) [9]).mpr ⟨_, rfl, written⟩

end TagWire.Tagged
