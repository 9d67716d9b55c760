import TagWire.Proofs.Decoder.Fields
import TagWire.Proofs.Decoder.Values
import TagWire.Proofs.Tagged.Acceptance

/-!
# Messages from a decoder

A decoder that comes to its end has delivered one whole message, if the fields of its section make
one list.

- `Layout.Rooted`: whether the fields of a section make one list.
- `Decoder.drain_message`: what is drained from a decoder is a message just under that condition.
-/

namespace TagWire

open Tagged (Announced Body Item Message Series readMessage maxDepth)

namespace Layout

/-- Whether the fields of a section make one list of the tagged message: all of them where the
section is a list of its own, with as many as a word can tell, and otherwise the one that is a list
or a vector. -/
def Rooted (tokens : List Token) (fields : List Field) : Prop :=
  if isWrapped tokens then fields.countP Field.isVisible < 0x80000000 else fields.any Field.isList =
    true

/-- How many lists of the tagged message of a section stand one inside the other. -/
def nesting (tokens : List Token) (fields : List Field) : Nat :=
  if isWrapped tokens then Field.allDepth fields + 1 else Field.allDepth fields

end Layout

namespace Field

variable {depth : Nat} {item : Option Kind}

/-- A pass over a whole section delivers what its fields contribute, behind the words in front of
it, and meets their data where it is in there. -/
theorem layOut_contribute {fields : List Field} (declared : ∀ f ∈ fields, f.Declared none)
    (items : allItemsOnly fields = true) (shallow : allDepth fields ≤ depth) (waiting : List Word)
    {l l' : Ledger} (run : (Pass.gaps (layOut waiting fields)).run l = (.ok (), l')) :
    ∃ sent vs, AllContribute depth none fields sent vs ∧
      l'.delivered = l.delivered ++ waiting.flatMap Word.toBytes ++ sent ∧
      List.Forall₂ Meets (Pass.reached (layOut waiting fields) l) (allPlaced fields vs) := by
  have delivers :
      Delivers fields (allGaps waiting fields) waiting (AllContribute depth none fields) :=
    allGaps_contribute
      (fun f member => gaps_contribute (declared f member) (allItemsOnly_iff.mp items f member)
      (allDepth_le.mp shallow f member)) waiting
  rw [layOut] at run ⊢
  generalize allGaps waiting fields = made at run delivers ⊢
  dsimp only at run ⊢
  by_cases none_left : made.2 = []
  · rw [if_pos none_left] at run ⊢
    obtain ⟨sent, vs, contribute, delivered, met⟩ := delivers run
    rw [none_left] at delivered
    exact ⟨sent, vs, contribute, (List.append_nil _).symm.trans delivered, met⟩
  · rw [if_neg none_left] at run ⊢
    rw [Pass.gaps_append] at run
    obtain ⟨_, l₁, passed, run⟩ := Pass.bind_ok run
    obtain ⟨sent, vs, contribute, delivered, met⟩ := delivers passed
    rw [Pass.gaps_single] at run
    refine ⟨sent, vs, contribute, (Pass.deliver_moves run).delivered.trans delivered, ?_⟩
    -- the words behind the last field are in front of no data
    have no_data : Pass.reached [⟨made.2, .nothing⟩] l₁ = [] := rfl
    rw [Pass.reached_append passed, no_data, List.append_nil]
    exact met

/-- A visible field that is not an item is a list just where its first tag word is one. -/
theorem Declared.isList_of_head {f : Field} (declared : f.Declared item) {w : Word}
    (head : f.words.head? = some w) :
    w.isList = f.isList := by
  cases declared with
  | derive | hidden | item | hiddenGroup => cases head
  | scalar =>
    cases head
    exact (Bool.or_false _).symm
  | vector | group =>
    cases head
    simp [isList, words, (Word.ofList_announces _).2.1]

theorem Declared.not_list {f : Field} (declared : f.Declared item) (hidden : f.isVisible = false) :
    f.isList = false := by
  cases declared with
  | derive | hidden | item | hiddenGroup => rfl
  | scalar sound visible => simp [isVisible, visible] at hidden
  | vector sound exchanged => simp [isVisible, exchanged, Use.isHidden] at hidden
  | group => cases hidden

/-- Of fields of which at most one is visible, only that one contributes. -/
theorem AllContribute.single {fields : List Field} (declared : ∀ f ∈ fields, f.Declared item)
    {bytes : Bytes} {vs : List Value} (h : AllContribute depth item fields bytes vs)
    (bound : fields.countP isVisible ≤ 1) :
    bytes = [] ∧ fields.any isList = false ∨
      ∃ f ∈ fields, f.isVisible = true ∧ f.Contributes depth item bytes vs ∧
        fields.any isList = f.isList := by
  induction h with
  | nil => exact .inl ⟨rfl, rfl⟩
  | @cons f fields bytes _ vs _ first further ih =>
    have rest_declared : ∀ f ∈ fields, f.Declared item := by
      intro f member
      exact declared f (List.mem_cons_of_mem _ member)
    cases visible : f.isVisible with
    | false =>
      have not_list := (declared f List.mem_cons_self).not_list visible
      rw [List.countP_cons_of_neg (by simp [visible])] at bound
      obtain ⟨rfl, rfl⟩ : bytes = [] ∧ vs = [] := by
        cases first with
        | nothing => exact ⟨rfl, rfl⟩
        | item shown | own shown =>
          rw [visible] at shown
          cases shown
      rw [List.any_cons, not_list, Bool.false_or]
      rcases ih rest_declared bound with none_shown | ⟨g, member, shown⟩
      · exact .inl none_shown
      · exact .inr ⟨g, List.mem_cons_of_mem _ member, shown⟩
    | true =>
      rw [List.countP_cons_of_pos visible] at bound
      have hidden : ∀ g ∈ fields, g.isVisible = false := by
        intro g member
        have none_shown : fields.countP isVisible = 0 := by omega
        simpa using List.countP_eq_zero.mp none_shown g member
      obtain ⟨rfl, rfl⟩ := further.nothing hidden
      refine .inr ⟨f, List.mem_cons_self, visible, ?_, ?_⟩
      · rwa [List.append_nil, List.append_nil]
      · have not_lists : fields.any isList = false := by
          rw [List.any_eq_false]
          intro g member
          rw [(rest_declared g member).not_list (hidden g member)]
          exact Bool.false_ne_true
        rw [List.any_cons, not_lists, Bool.or_false]

end Field

namespace Layout

open TagWire.Field (AllContribute)

variable {tokens : List Token} {fields : List Field} {sent : Bytes} {vs : List Value}

/-- The tag words in front of a section that is a list of its own. -/
theorem wrapping_of_wrapped (wrapped : isWrapped tokens = true) (fields : List Field) :
    (wrapping tokens fields).flatMap Word.toBytes =
      (Word.ofList none).toBytes ++ (Word.ofTag
        (min (fields.countP Field.isVisible) 0x7fffffff)).toBytes := by
  rw [wrapping, if_pos wrapped]
  simp

/-- The items of a section that is a list of its own. -/
theorem series_of_wrapped {depth : Nat} (declared : ∀ f ∈ fields, f.Declared none)
    (contribute : AllContribute depth none fields sent vs) :
    Series (Item (Body depth) (Kind.shared none)) sent vs ∧
      vs.length = fields.countP Field.isVisible :=
  contribute.series fun f member => (declared f member).not_item

theorem message_of_series {shared : Option Kind} {w : Word} {bytes : Bytes}
    (length : w.length? = some vs.length)
    (series : Series (Item (Body 128) (Kind.shared shared)) bytes vs) :
    Message ((Word.ofList shared).toBytes ++ (w.toBytes ++ bytes)) (.list vs) := by
  obtain ⟨_, list, _, unit⟩ := Word.ofList_announces shared
  refine ⟨Word.ofList shared, w.toBytes ++ bytes, rfl, list, ?_⟩
  rw [unit]
  exact ⟨w, vs, bytes, rfl, length, rfl, series⟩

/-- A section that is a list of its own is a message, if a word can tell its length. -/
theorem message_of_wrapped (wrapped : isWrapped tokens = true)
    (declared : ∀ f ∈ fields, f.Declared none)
    (contribute : AllContribute 128 none fields sent vs)
    (bound : fields.countP Field.isVisible < 0x80000000) :
    ∃ v, Message ((wrapping tokens fields).flatMap Word.toBytes ++ sent) v := by
  obtain ⟨series, length⟩ := series_of_wrapped declared contribute
  refine ⟨.list vs, ?_⟩
  rw [wrapping_of_wrapped wrapped, List.append_assoc]
  refine message_of_series ?_ series
  rw [length, Nat.min_eq_left (by omega)]
  exact Word.length_ofTag bound

/-- Where a section that is a list of its own is read, all its items are, and a word can tell how
many there are. -/
theorem items_of_wrapped {depth : Nat} (wrapped : isWrapped tokens = true)
    (declared : ∀ f ∈ fields, f.Declared none) (contribute : AllContribute depth none fields sent vs)
    {v : Value}
    (read : readMessage.run ((wrapping tokens fields).flatMap Word.toBytes ++ sent) =
      (.ok v, [])) :
    v = .list vs ∧ fields.countP Field.isVisible < 0x80000000 := by
  obtain ⟨series, length⟩ := series_of_wrapped declared contribute
  generalize total : fields.countP Field.isVisible = count at length
  have bound : min count 0x7fffffff < 0x80000000 := by omega
  obtain ⟨first, rest, rfl, told, left⟩ := series.split (min count 0x7fffffff)
  have told_length : (Word.ofTag (min count 0x7fffffff)).length? =
      some (vs.take (min count 0x7fffffff)).length := by
    rw [Word.length_ofTag bound, List.length_take_of_le (by omega)]
  rw [wrapping_of_wrapped wrapped, total] at read
  simp only [List.append_assoc] at read
  rw [← List.append_assoc (Word.toBytes _) first rest] at read
  have body : Body (depth + 1) (Word.ofList none).unit
      ((Word.ofTag (min count 0x7fffffff)).toBytes ++ first)
      (.list (vs.take (min count 0x7fffffff))) :=
    ⟨_, _, first, rfl, told_length, rfl, told⟩
  obtain ⟨v_eq, rfl⟩ := Tagged.body_of_readMessage read body
  -- items that are left behind the number would have bytes
  have none_left : vs.drop (min count 0x7fffffff) = [] := by
    generalize vs.drop (min count 0x7fffffff) = others at left
    cases others with
    | nil => rfl
    | cons item others =>
      refine absurd rfl (left.ne_nil ?_)
      rintro bytes v ⟨w, bytes, rfl, -⟩
      exact List.append_ne_nil_of_left_ne_nil (List.ne_nil_of_length_pos (by simp)) bytes
  have all : vs.length ≤ min count 0x7fffffff := List.drop_eq_nil_iff.mp none_left
  refine ⟨?_, by omega⟩
  rw [v_eq, List.take_of_length_le all]

/-- A longer one is no message. -/
theorem left_of_wrapped (wrapped : isWrapped tokens = true)
    (declared : ∀ f ∈ fields, f.Declared none)
    (contribute : AllContribute 128 none fields sent vs)
    (beyond : 0x80000000 ≤ fields.countP Field.isVisible) (v : Value) :
    readMessage.run ((wrapping tokens fields).flatMap Word.toBytes ++ sent) ≠ (.ok v, []) := by
  intro read
  have bound := (items_of_wrapped wrapped declared contribute read).2
  omega

/-- A section that is no list of its own is a message, if its one visible field is a list or a
vector. -/
theorem message_of_root (declared : ∀ f ∈ fields, f.Declared none)
    (single : fields.countP Field.isVisible ≤ 1)
    (contribute : AllContribute maxDepth none fields sent vs)
    (root : fields.any Field.isList = true) :
    ∃ v, Message sent v := by
  rcases contribute.single declared
    single with ⟨_, no_root⟩ | ⟨f, member, visible, contributes, root_eq⟩
  · rw [root] at no_root
    cases no_root
  · cases contributes with
    | nothing hidden =>
      rw [visible] at hidden
      cases hidden
    | item _ _ shared => cases shared
    | @own w bytes v _ _ head announced =>
      have list : w.isList = true := by
        rw [(declared f member).isList_of_head head, ← root_eq, root]
      cases announced with
      | primitive tag =>
        rw [Word.not_list_of_ofTag? tag] at list
        cases list
      | list _ _ _ body => exact ⟨v, w, bytes, rfl, list, body⟩

/-- Where a section that is no list of its own is read, its one visible field is a list or a
vector, and is what is read. -/
theorem root_of_unwrapped {depth : Nat} (declared : ∀ f ∈ fields, f.Declared none)
    (single : fields.countP Field.isVisible ≤ 1)
    (contribute : AllContribute depth none fields sent vs) {v : Value}
    (read : readMessage.run sent = (.ok v, [])) : vs = [v] ∧ fields.any Field.isList = true := by
  obtain ⟨w', more, split, list⟩ := Tagged.list_of_readMessage read
  rcases contribute.single declared
    single with ⟨rfl, _⟩ | ⟨f, member, visible, contributes, root_eq⟩
  · have := congrArg List.length split
    simp only [List.length_nil, List.length_append, Word.length_toBytes] at this
    omega
  · cases contributes with
    | nothing hidden =>
      rw [visible] at hidden
      cases hidden
    | item _ _ shared => cases shared
    | @own w bytes v' _ _ head announced =>
      obtain rfl := Word.toBytes_inj (List.append_inj split (by simp)).1
      cases announced with
      | primitive tag =>
        rw [Word.not_list_of_ofTag? tag] at list
        cases list
      | list _ _ _ body =>
        rw [← List.append_nil bytes] at read
        obtain ⟨rfl, -⟩ := Tagged.body_of_readMessage read body
        exact ⟨rfl, by rw [root_eq, ← (declared f member).isList_of_head head, list]⟩

/-- A single primitive is no message, and neither is nothing at all. -/
theorem left_of_root (declared : ∀ f ∈ fields, f.Declared none)
    (single : fields.countP Field.isVisible ≤ 1)
    (contribute : AllContribute maxDepth none fields sent vs)
    (no_root : fields.any Field.isList = false) (v : Value) :
    readMessage.run sent ≠ (.ok v, []) := by
  intro read
  have root := (root_of_unwrapped declared single contribute read).2
  rw [no_root] at root
  cases root

end Layout

namespace Decoder

open Layout (Token compileSections isWrapped readFields Rooted nesting)

/-- A decoder that comes to its end without an error has delivered one whole message, which is the
value that is read from it, if the fields of its section make one list; otherwise no value can be
read from it. Item vectors have to hold only items. -/
theorem drain_message {grammar : String} {layouts : List Layout}
    (compiled : compileSections grammar = .ok layouts) {tokens : List Token} {layout : Layout}
    (paired : (tokens, layout) ∈ (Token.sections (Token.scan grammar)).zip layouts)
    (items : Field.allItemsOnly (readFields tokens).1 = true)
    (shallow : nesting tokens (readFields tokens).1 ≤ maxDepth) (properties : Properties)
    {source : Source} (answers : source.Answers) {sizes : List Nat}
    (positive : ∀ n ∈ sizes, 0 < n)
    (ended : ((seeded layout source properties).drain sizes).outcome = some (.ok ())) :
    let bytes := ((seeded layout source properties).drain sizes).bytes
    let outcome := (seeded layout source properties).readValue.1
    (Rooted tokens (readFields tokens).1 →
      ∃ v, Message bytes v ∧ readMessage.run bytes = (.ok v, []) ∧ outcome = .ok v) ∧
      (¬ Rooted tokens (readFields tokens).1 →
        ∀ v, readMessage.run bytes ≠ (.ok v, []) ∧ outcome ≠ .ok v) := by
  intro bytes outcome
  obtain ⟨member, made, silent⟩ := Layout.compileSections_paired compiled paired
  have sound := Layout.compileSections_sound compiled member
  obtain ⟨reads, single⟩ := Layout.readFields_reads silent
  have declared : ∀ f ∈ (readFields tokens).1, f.Declared none := reads.declared
  generalize (readFields tokens).1 = fields at *
  obtain ⟨final, once, bytes_eq, _⟩ := drain_ok sound answers positive ended
  have read_iff := readValue_ok sound answers positive ended
  -- what is left to decide is whether the bytes are a message
  suffices decided : (Rooted tokens fields → ∃ v, Message bytes v) ∧
      (¬ Rooted tokens fields → ∀ v, readMessage.run bytes ≠ (.ok v, [])) by
    refine ⟨fun rooted => ?_, fun no_root v =>
      ⟨decided.2 no_root v, fun read => decided.2 no_root v ((read_iff v).mp read)⟩⟩
    obtain ⟨v, message⟩ := decided.1 rooted
    exact ⟨v, message, Tagged.decode_message message,
      (read_iff v).mpr (Tagged.decode_message message)⟩
  rw [made, Layout.decodeOnce] at once
  rw [show bytes = final.delivered from bytes_eq]
  unfold Rooted
  unfold nesting at shallow
  cases wrapped : isWrapped tokens with
  | true =>
    rw [wrapped] at shallow
    obtain ⟨sent, vs, contribute, delivered, -⟩ :=
      Field.layOut_contribute declared items (Nat.le_of_succ_le_succ shallow) _ once
    rw [delivered]
    exact ⟨fun bound => Layout.message_of_wrapped wrapped declared contribute bound,
      fun beyond => Layout.left_of_wrapped wrapped declared contribute (Nat.le_of_not_lt beyond)⟩
  | false =>
    rw [wrapped] at shallow
    obtain ⟨sent, vs, contribute, delivered, -⟩ :=
      Field.layOut_contribute declared items shallow _ once
    have unwrapped : Layout.wrapping tokens fields = [] :=
      if_neg (by rw [wrapped]; exact Bool.false_ne_true)
    rw [delivered, unwrapped]
    exact ⟨fun root => Layout.message_of_root declared (single wrapped) contribute root,
      fun no_root =>
        Layout.left_of_root declared (single wrapped) contribute (Bool.eq_false_iff.mpr no_root)⟩

/-- Two items, of which one is padded outside, with a field between them that is only outside. -/
def itemPair : Layout :=
  ⟨[⟨[320, 2], .data ⟨.fixed 1, .int16, .pad 4 true, .exchanged, "item:4 *"⟩⟩,
    ⟨[], .data ⟨.fixed 1, .int8, .identity, .skipped, "skip int8 *"⟩⟩,
    ⟨[], .data ⟨.fixed 1, .int16, .identity, .exchanged, "item *"⟩⟩],
    "item_vector int16 2 item:4 * skip int8 * item *"⟩

def itemPairTokens : List Token :=
  [⟨"", "item_vector", 0⟩, ⟨" ", "int16", 12⟩, ⟨" ", "2", 18⟩, ⟨" ", "item:4", 20⟩, ⟨" ", "*", 27⟩,
    ⟨" ", "skip", 29⟩,
    ⟨" ", "int8", 34⟩, ⟨" ", "*", 39⟩, ⟨" ", "item", 41⟩, ⟨" ", "*", 46⟩]

def itemPairFields : List Field :=
  [.group false [320, 2]
    [.data [] ⟨.fixed 1, .int16, .pad 4 true, .exchanged, "item:4 *"⟩,
      .data [] ⟨.fixed 1, .int8, .identity, .skipped, "skip int8 *"⟩,
      .data [] ⟨.fixed 1, .int16, .identity, .exchanged, "item *"⟩]]

theorem readFields_itemPair : readFields itemPairTokens = (itemPairFields, []) := rfl

theorem compileSections_itemPair :
    compileSections "item_vector int16 2 item:4 * skip int8 * item *" = .ok [itemPair] :=
  @Layout.compileSections_single _ itemPairTokens itemPairFields rfl rfl

def pairSource : Source :=
  ⟨[.bytes [0xfe, 0xff, 0xff], .interruption, .bytes [0xff, 9, 7, 0]], none⟩

theorem drain_itemPair :
    compileSections "item_vector int16 2 item:4 * skip int8 * item *" = .ok [itemPair] ∧
      (itemPairTokens, itemPair) ∈
        (Token.sections (Token.scan "item_vector int16 2 item:4 * skip int8 * item *")).zip
          [itemPair] ∧
      Field.allItemsOnly (readFields itemPairTokens).1 = true ∧
        nesting itemPairTokens (readFields itemPairTokens).1 ≤ maxDepth ∧
      pairSource.Answers ∧ (∀ n ∈ List.replicate 20 7, 0 < n) ∧
        Rooted itemPairTokens (readFields itemPairTokens).1 ∧
      ((seeded itemPair pairSource {}).drain (List.replicate 20 7)).outcome = some (.ok ()) ∧
      ∃ v, Message [64, 1, 0, 0, 2, 0, 0, 0, 0xfe, 0xff, 7, 0] v ∧
        (seeded itemPair pairSource {}).readValue.1 = .ok v := by
  have answers : pairSource.Answers := by simp [pairSource, Source.Answers]
  have positive : ∀ n ∈ List.replicate 20 7, 0 < n := by decide
  have paired : (itemPairTokens, itemPair) ∈
      (Token.sections (Token.scan "item_vector int16 2 item:4 * skip int8 * item *")).zip
        [itemPair] :=
    List.mem_singleton.mpr rfl
  have items : Field.allItemsOnly (readFields itemPairTokens).1 = true := by
    rw [readFields_itemPair]
    rfl
  have shallow : nesting itemPairTokens (readFields itemPairTokens).1 ≤ maxDepth := by
    rw [readFields_itemPair]
    decide
  have rooted : Rooted itemPairTokens (readFields itemPairTokens).1 := by
    rw [readFields_itemPair]
    rfl
  have sound := Layout.compileSections_sound compileSections_itemPair (List.mem_singleton.mpr rfl)
  have once : itemPair.decodeOnce pairSource.contents {} =
      (.ok (), ⟨[64, 1, 0, 0, 2, 0, 0, 0, 0xfe, 0xff, 7, 0], ⟨[], none, []⟩, {}⟩) :=
        Prod.ext (by rfl) (by rfl)
  have ended : ((seeded itemPair pairSource {}).drain (List.replicate 20 7)).outcome =
      some (.ok ()) := by
    have enough := (@drain_enough _ _ {} _ sound answers positive).2
    rw [once] at enough
    exact enough (by decide)
  obtain ⟨final, once', bytes_eq, _⟩ := drain_ok sound answers positive ended
  rw [once] at once'
  cases once'
  obtain ⟨v, message, _, read⟩ :=
    (drain_message compileSections_itemPair paired items shallow {} answers positive ended).1 rooted
  rw [bytes_eq] at message
  exact ⟨compileSections_itemPair, paired, items, shallow, answers, positive, rooted, ended, v,
    message, read⟩

/-- An item vector of integers that holds a string with its own tag word. -/
def mixedVector : Layout :=
  ⟨[⟨[257, 1, 4], .data ⟨.fixed 1, .string, .identity, .exchanged, "string *"⟩⟩],
    "item_vector int32 1 string *"⟩

theorem compileSections_mixedVector :
    compileSections "item_vector int32 1 string *" = .ok [mixedVector] :=
  @Layout.compileSections_single _
    [⟨"", "item_vector", 0⟩, ⟨" ", "int32", 12⟩, ⟨" ", "1", 18⟩, ⟨" ", "string", 20⟩,
      ⟨" ", "*", 27⟩]
    [.group false [257, 1] [.data [4] ⟨.fixed 1, .string, .identity, .exchanged, "string *"⟩]] rfl
      rfl

def textSource : Source := ⟨[.bytes [2, 0, 0, 0, 104, 105]], none⟩

/-- Item vectors have to hold only items: here the tag word of the string is taken for the item, and
the string is left. -/
theorem readValue_mixedVector :
    ((seeded mixedVector textSource {}).drain (List.replicate 20 7)).outcome = some (.ok ()) ∧
      readMessage.run ((seeded mixedVector textSource {}).drain (List.replicate 20 7)).bytes =
        (.ok (.list [Value.ofPayload .int32 [4, 0, 0, 0]]), [2, 0, 0, 0, 104, 105]) ∧
      ∀ v, (seeded mixedVector textSource {}).readValue.1 ≠ .ok v := by
  have answers : textSource.Answers := by simp [textSource, Source.Answers]
  have positive : ∀ n ∈ List.replicate 20 7, 0 < n := by decide
  have sound :=
    Layout.compileSections_sound compileSections_mixedVector (List.mem_singleton.mpr rfl)
  have once : mixedVector.decodeOnce textSource.contents {} =
      (.ok (), ⟨[1, 1, 0, 0, 1, 0, 0, 0, 4, 0, 0, 0] ++ [2, 0, 0, 0, 104, 105], ⟨[], none, []⟩,
        {}⟩) := Prod.ext (by rfl) (by rfl)
  have ended : ((seeded mixedVector textSource {}).drain (List.replicate 20 7)).outcome =
      some (.ok ()) := by
    have enough := (@drain_enough _ _ {} _ sound answers positive).2
    rw [once] at enough
    exact enough (by decide)
  obtain ⟨final, once', bytes_eq, _⟩ := drain_ok sound answers positive ended
  rw [once] at once'
  cases once'
  have four : Tagged.Primitive .int32 [4, 0, 0, 0] (Value.ofPayload .int32 [4, 0, 0, 0]) :=
    .fixed rfl rfl
  have item : Item (Body 128) (Kind.shared (some .int32)) [4, 0, 0, 0]
    (Value.ofPayload .int32 [4, 0, 0, 0]) := .of_primitive four
  have items : Series (Item (Body 128) (Kind.shared (some .int32))) ([4, 0, 0, 0] ++ [])
    [Value.ofPayload .int32 [4, 0, 0, 0]] :=
    .cons item .nil
  have length : (Word.ofTag 1).length? = some [Value.ofPayload .int32 [4, 0, 0, 0]].length :=
    Word.length_ofTag (by decide)
  have message : Message [1, 1, 0, 0, 1, 0, 0, 0, 4, 0, 0, 0]
    (.list [Value.ofPayload .int32 [4, 0, 0, 0]]) :=
    Layout.message_of_series length items
  have read := Tagged.yields_message message [2, 0, 0, 0, 104, 105]
  dsimp only at bytes_eq
  rw [← bytes_eq] at read
  refine ⟨ended, read, fun v value => ?_⟩
  rw [readValue_ok sound answers positive ended, read] at value
  cases value

end Decoder

end TagWire
