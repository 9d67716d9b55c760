import TagWire.Proofs.Json.Building
import TagWire.Proofs.Utf8
import TagWire.Proofs.Value.Lexing
import TagWire.Value.Json

/-!
# Values as JSON, written and read

A value without floating-point numbers is read back from its JSON, whatever form its strings have.

- `Value.ShownBy`: the trees that stand for a value, with either form of each string.
- `Value.ShownBy.read`: they give the value.
- `Value.height_ofJson`: the tree that is written is no deeper than the one that was read.
- `Value.json_keeps`: values and their texts.
-/

namespace TagWire.Value

open Json (maxDepth)

/-- Whether a value is no floating-point number. -/
def NoFloat (v : Value) : Prop := v.kind? ≠ some .float32 ∧ v.kind? ≠ some .float64

theorem jsonByte_toNat (b : UInt8) : jsonByte? (.int b.toNat) = some b := by
  have := b.toNat_lt
  rw [jsonByte?, if_pos (by omega), Int.toNat_natCast, UInt8.ofNat_toNat]

/-- Bytes are read from their array. -/
theorem jsonBytes_jsonBytes (bytes : Bytes) : jsonBytes? (jsonBytes bytes) = some bytes := by
  rw [jsonBytes, jsonBytes?]
  induction bytes with
  | nil => rfl
  | cons b rest ih =>
    rw [List.map_cons, List.mapM_cons, jsonByte_toNat, ih]
    rfl

/-- A string is text if and only if the text has its bytes. -/
theorem jsonString_text {bytes : Bytes} {text : List Char} :
    jsonString bytes = .string text ↔ Utf8.encodeChars text = bytes := by
  rw [← Utf8.chars?_iff, jsonString]
  cases Utf8.chars? bytes with
  | none => exact ⟨nofun, nofun⟩
  | some chars => simp

theorem jsonString_array {bytes : Bytes} (no_text : ∀ text, Utf8.encodeChars text ≠ bytes) :
    jsonString bytes = jsonBytes bytes := by
  rw [jsonString]
  cases chars : Utf8.chars? bytes with
  | none => rfl
  | some text => exact absurd (Utf8.chars?_iff.mp chars) (no_text text)

/-- What may stand for the bytes of a string: a text that has them, and their array. -/
inductive Spells (bytes : Bytes) : Json → Prop
  | text {chars} (encoded : Utf8.encodeChars chars = bytes) : Spells bytes (.string chars)
  | array : Spells bytes (jsonBytes bytes)

theorem spells_jsonString (bytes : Bytes) : Spells bytes (jsonString bytes) := by
  by_cases encoded : ∃ text, Utf8.encodeChars text = bytes
  · obtain ⟨text, encoded⟩ := encoded
    rw [jsonString_text.mpr encoded]
    exact .text encoded
  · rw [jsonString_array (not_exists.mp encoded)]
    exact .array

section
variable {bytes : Bytes} {j : Json}

/-- Either form of a string is read as its bytes. -/
theorem Spells.read (spells : Spells bytes j) : jsonString? j = some bytes := by
  cases spells with
  | text encoded => rw [jsonString?, encoded]
  | array => exact jsonBytes_jsonBytes bytes

theorem exact_jsonBytes (bytes : Bytes) : (jsonBytes bytes).Exact := by
  refine .array fun item member => ?_
  obtain ⟨b, -, rfl⟩ := List.mem_map.mp member
  have := b.toNat_lt
  exact .int (by omega) (by omega)

theorem Spells.exact (spells : Spells bytes j) : j.Exact := by
  cases spells with
  | text => exact .string _
  | array => exact exact_jsonBytes bytes

theorem height_jsonBytes (bytes : Bytes) : (jsonBytes bytes).height = 1 := by
  have flat : Json.heightOfItems (bytes.map fun b => .int b.toNat) ≤ 0 := by
    refine Json.heightOfItems_le.mpr fun item member => ?_
    obtain ⟨b, -, rfl⟩ := List.mem_map.mp member
    exact Nat.le_refl 0
  rw [jsonBytes, Json.height, Nat.le_zero.mp flat]

theorem exact_jsonEntry {kind : Kind} (exact : j.Exact) : (jsonEntry kind j).Exact :=
  .object (List.forall_mem_singleton.mpr exact)

theorem jsonEntry_inj {kind : Kind} {j j' : Json} : jsonEntry kind j = jsonEntry kind j' ↔ j = j' := by
  simp [jsonEntry]

theorem height_jsonEntry (kind : Kind) (j : Json) : (jsonEntry kind j).height = j.height + 1 := by
  rw [jsonEntry, Json.height, Json.heightOfEntries, Json.heightOfEntries, Nat.max_zero]

end

theorem toInt_bounds (code : Word) : -0x80000000 ≤ code.toInt ∧ code.toInt < 0x80000000 :=
  ⟨code.toInt32.le_toInt, code.toInt32.toInt_lt⟩

theorem ofInt_toInt (code : Word) : Word.ofInt code.toInt = code := by
  rw [Word.ofInt, Word.toInt, Int32.ofInt_toInt]
  rfl

mutual

/-- Whether a tree is the one that is written for a value, whatever the form of the strings in it. -/
def ShownBy : Value → Json → Prop
  | string bytes, j => ∃ form, Spells bytes form ∧ j = jsonEntry .string form
  | list items, j => ∃ trees, AllShownBy items trees ∧ j = .object [(listKey.toList, .array trees)]
  | v, j => j = v.toJson

def AllShownBy : List Value → List Json → Prop
  | [], trees => trees = []
  | v :: rest, trees => ∃ tree others, v.ShownBy tree ∧ AllShownBy rest others ∧ trees = tree :: others

end

section
variable {P : Value → Prop} {v : Value} {items : List Value} {bytes : Bytes} {j : Json}
  {trees : List Json}

theorem shownBy_items (each : ∀ v ∈ items, v.ShownBy v.toJson) :
    AllShownBy items (itemsToJson items) := by
  induction items with
  | nil => rfl
  | cons v others ih =>
    obtain ⟨first, further⟩ := List.forall_mem_cons.mp each
    exact ⟨_, _, first, ih further, rfl⟩

/-- The tree that is written for a value. -/
theorem shownBy_toJson (leaves : v.Leaves P) : v.ShownBy v.toJson := by
  induction leaves with
  | @leaf v primitive _ =>
    cases v with
    | string bytes => exact ⟨_, spells_jsonString bytes, rfl⟩
    | list items => cases primitive
    | _ => rfl
  | list _ each => exact ⟨_, shownBy_items each, rfl⟩

theorem exact_items (each : ∀ v ∈ items, ∀ j, v.ShownBy j → j.Exact)
    (shown : AllShownBy items trees) : ∀ tree ∈ trees, tree.Exact := by
  induction items generalizing trees with
  | nil =>
    cases shown
    exact List.forall_mem_nil _
  | cons v others ih =>
    obtain ⟨tree, rest, here, behind, rfl⟩ := shown
    obtain ⟨first, further⟩ := List.forall_mem_cons.mp each
    exact List.forall_mem_cons.mpr ⟨first tree here, ih further behind⟩

/-- The trees of a value without floats are written without loss. -/
theorem ShownBy.exact (leaves : v.Leaves NoFloat) (shown : v.ShownBy j) : j.Exact := by
  have int (kind : Kind) {i : Int} (low : -0x8000000000000000 ≤ i) (high : i < 0x8000000000000000) :
      (jsonEntry kind (.int i)).Exact := exact_jsonEntry (.int low (by omega))
  induction leaves generalizing j with
  | @leaf v primitive no_float =>
    cases v with
    | int8 i =>
      cases shown
      exact int _ (by have := i.le_toInt; omega) (by have := i.toInt_lt; omega)
    | int16 i =>
      cases shown
      exact int _ (by have := i.le_toInt; omega) (by have := i.toInt_lt; omega)
    | int32 i =>
      cases shown
      exact int _ (by have := i.le_toInt; omega) (by have := i.toInt_lt; omega)
    | int64 i =>
      cases shown
      exact int _ i.le_toInt i.toInt_lt
    | vocab code =>
      cases shown
      have := toInt_bounds code
      exact int _ (by omega) (by omega)
    | float32 bits => exact absurd rfl no_float.1
    | float64 bits => exact absurd rfl no_float.2
    | string bytes =>
      obtain ⟨form, spells, rfl⟩ := shown
      exact exact_jsonEntry spells.exact
    | blob bytes =>
      cases shown
      exact exact_jsonEntry (exact_jsonBytes bytes)
    | list items => cases primitive
  | list _ each =>
    obtain ⟨trees, shown, rfl⟩ := shown
    have exact_trees := exact_items (fun v member j => each v member) shown
    exact .object (List.forall_mem_singleton.mpr (.array exact_trees))

theorem ofJson_jsonEntry (kind : Kind) (j : Json) :
    ofJson? (jsonEntry kind j) = primitiveOfJson? kind j := by
  cases kind <;> rfl

theorem jsonInt_within {width : Nat} {i : Int}
    (within : -(Bytes.card width / 2 : Nat) ≤ i ∧ i < (Bytes.card width / 2 : Nat)) :
    jsonInt? width (.int i) = some i := by
  rw [jsonInt?, if_pos within]

theorem ofJson_items (each : ∀ v ∈ items, ∀ j, v.ShownBy j → ofJson? j = some v)
    (shown : AllShownBy items trees) : itemsOfJson? trees = some items := by
  induction items generalizing trees with
  | nil =>
    cases shown
    rfl
  | cons v others ih =>
    obtain ⟨tree, rest, here, behind, rfl⟩ := shown
    obtain ⟨first, further⟩ := List.forall_mem_cons.mp each
    rw [itemsOfJson?, first tree here, ih further behind]
    rfl

/-- The trees of a value without floats give the value. -/
theorem ShownBy.read (leaves : v.Leaves NoFloat) (shown : v.ShownBy j) : ofJson? j = some v := by
  induction leaves generalizing j with
  | @leaf v primitive no_float =>
    cases v with
    | int8 i =>
      cases shown
      rw [toJson, ofJson_jsonEntry, primitiveOfJson?, jsonInt_within ⟨i.le_toInt, i.toInt_lt⟩,
        Option.map_some, Int8.ofInt_toInt]
    | int16 i =>
      cases shown
      rw [toJson, ofJson_jsonEntry, primitiveOfJson?, jsonInt_within ⟨i.le_toInt, i.toInt_lt⟩,
        Option.map_some, Int16.ofInt_toInt]
    | int32 i =>
      cases shown
      rw [toJson, ofJson_jsonEntry, primitiveOfJson?, jsonInt_within ⟨i.le_toInt, i.toInt_lt⟩,
        Option.map_some, Int32.ofInt_toInt]
    | int64 i =>
      cases shown
      rw [toJson, ofJson_jsonEntry, primitiveOfJson?, jsonInt_within ⟨i.le_toInt, i.toInt_lt⟩,
        Option.map_some, Int64.ofInt_toInt]
    | vocab code =>
      cases shown
      rw [toJson, ofJson_jsonEntry, primitiveOfJson?, jsonInt_within (toInt_bounds code),
        Option.map_some, ofInt_toInt]
    | float32 bits => exact absurd rfl no_float.1
    | float64 bits => exact absurd rfl no_float.2
    | string bytes =>
      obtain ⟨form, spells, rfl⟩ := shown
      rw [ofJson_jsonEntry, primitiveOfJson?, spells.read, Option.map_some]
    | blob bytes =>
      cases shown
      rw [toJson, ofJson_jsonEntry, primitiveOfJson?, jsonBytes_jsonBytes, Option.map_some]
    | list items => cases primitive
  | list _ each =>
    obtain ⟨trees, shown, rfl⟩ := shown
    have read_items := ofJson_items (fun v member j => each v member) shown
    rw [ofJson?, if_pos rfl, listOfJson?, read_items, Option.map_some]

theorem height_jsonBytes_le (read : jsonBytes? j = some bytes) :
    (jsonBytes bytes).height ≤ j.height := by
  rw [height_jsonBytes]
  cases j with
  | array items =>
    rw [Json.height]
    exact Nat.le_add_left 1 _
  | _ => cases read

/-- A string is written no deeper than it was read. -/
theorem height_jsonString_le (read : jsonString? j = some bytes) :
    (jsonString bytes).height ≤ j.height := by
  have array (other : jsonBytes? j = some bytes) : (jsonString bytes).height ≤ j.height := by
    by_cases encoded : ∃ text, Utf8.encodeChars text = bytes
    · obtain ⟨text, encoded⟩ := encoded
      rw [jsonString_text.mpr encoded]
      exact Nat.zero_le _
    · rw [jsonString_array (not_exists.mp encoded)]
      exact height_jsonBytes_le other
  cases j with
  | string chars =>
    cases read
    rw [jsonString_text.mpr rfl]
  | _ => exact array read

theorem height_primitive {kind : Kind} (read : primitiveOfJson? kind j = some v) :
    v.toJson.height ≤ j.height + 1 := by
  have flat (kind : Kind) {leaf : Json} (flat : leaf.height = 0) :
      (jsonEntry kind leaf).height ≤ j.height + 1 := by
    rw [height_jsonEntry, flat]
    omega
  cases kind with
  | string =>
    obtain ⟨bytes, spelled, rfl⟩ := Option.map_eq_some_iff.mp read
    rw [toJson, height_jsonEntry]
    exact Nat.succ_le_succ (height_jsonString_le spelled)
  | blob =>
    obtain ⟨bytes, spelled, rfl⟩ := Option.map_eq_some_iff.mp read
    rw [toJson, height_jsonEntry]
    exact Nat.succ_le_succ (height_jsonBytes_le spelled)
  | _ =>
    obtain ⟨_, -, rfl⟩ := Option.map_eq_some_iff.mp read
    exact flat _ rfl

theorem primitive_ofJson {kind : Kind} (read : primitiveOfJson? kind j = some v) :
    v.isList = false := by
  cases kind <;> obtain ⟨_, -, rfl⟩ := Option.map_eq_some_iff.mp read <;> rfl

/-- What a tree that is read holds. -/
theorem ofJson_some (read : ofJson? j = some v) : ∃ key inner, j = .object [(key, inner)] ∧
    ((∃ items, listOfJson? inner = some items ∧ v = list items) ∨
      ∃ kind, primitiveOfJson? kind inner = some v) := by
  unfold ofJson? at read
  split at read
  · rename_i key inner
    refine ⟨key, inner, rfl, ?_⟩
    split_ifs at read
    · obtain ⟨items, listed, rfl⟩ := Option.map_eq_some_iff.mp read
      exact .inl ⟨items, listed, rfl⟩
    · split at read
      · exact .inr ⟨_, read⟩
      · cases read
  · cases read

theorem height_items
    (each : ∀ v ∈ items, ∀ j, ofJson? j = some v → v.toJson.height ≤ j.height)
    (read : itemsOfJson? trees = some items) :
    Json.heightOfItems (itemsToJson items) ≤ Json.heightOfItems trees := by
  induction trees generalizing items with
  | nil =>
    cases read
    exact Nat.le_refl 0
  | cons tree rest ih =>
    obtain ⟨v, first, read⟩ := Option.bind_eq_some_iff.mp read
    obtain ⟨others, further, read⟩ := Option.bind_eq_some_iff.mp read
    cases read
    obtain ⟨here, behind⟩ := List.forall_mem_cons.mp each
    have := here tree first
    have := ih behind further
    rw [itemsToJson, Json.heightOfItems, Json.heightOfItems]
    omega

/-- A value is written no deeper than it was read. -/
theorem height_ofJson (leaves : v.Leaves P) (read : ofJson? j = some v) :
    v.toJson.height ≤ j.height := by
  induction leaves generalizing j with
  | @leaf v primitive _ =>
    obtain ⟨key, inner, rfl, ⟨items, -, rfl⟩ | ⟨kind, read⟩⟩ := ofJson_some read
    · cases primitive
    · rw [Json.height, Json.heightOfEntries, Json.heightOfEntries, Nat.max_zero]
      exact height_primitive read
  | @list items _ each =>
    obtain ⟨key, inner, rfl, ⟨_, read, ⟨⟩⟩ | ⟨kind, read⟩⟩ := ofJson_some read
    · cases inner with
      | array trees =>
        have := height_items (fun v member _ => each v member) read
        simp only [toJson, Json.height, Json.heightOfEntries, Nat.max_zero]
        omega
      | _ => cases read
    · cases primitive_ofJson read

/-- The text of a tree that is written without loss gives what the tree gives. -/
theorem ofJsonText_compact (exact : j.Exact) (shallow : j.height ≤ maxDepth) :
    ofJsonText? (String.ofList j.compact) = ofJson? j := by
  rw [ofJsonText?, String.toList_ofList, Json.parse_compact exact shallow, Option.bind_some]

/-- A value without floats is read back from its text if the brackets of the text do not nest too deep. -/
theorem ofJsonText_jsonText (leaves : v.Leaves NoFloat) :
    ofJsonText? v.jsonText = some v ↔ v.toJson.height ≤ maxDepth := by
  have shown := shownBy_toJson leaves
  constructor
  · intro read
    obtain ⟨j, parsed, read⟩ := Option.bind_eq_some_iff.mp read
    exact (height_ofJson leaves read).trans (Json.height_parse parsed)
  · intro shallow
    rw [jsonText, ofJsonText_compact (shown.exact leaves) shallow, shown.read leaves]

end

/-- JSON keeps every value `v` without floats. It is read back from its text, unless the brackets of the
text nest too deep. A string is text just where some text has its bytes, and the array of its bytes
otherwise; with either form of each string in it the value is read. And what is read from some text is
written and read again as itself. -/
theorem json_keeps {v : Value} (leaves : v.Leaves NoFloat) :
    (ofJsonText? v.jsonText = some v ↔ v.toJson.height ≤ maxDepth) ∧
    (∀ bytes,
      (∀ text, (string bytes).toJson = jsonEntry .string (.string text) ↔
        Utf8.encodeChars text = bytes) ∧
      ((∀ text, Utf8.encodeChars text ≠ bytes) →
        (string bytes).toJson = jsonEntry .string (jsonBytes bytes))) ∧
    (∀ j, v.ShownBy j → j.height ≤ maxDepth →
      ofJsonText? (String.ofList j.compact) = some v) ∧
    ∀ text, ofJsonText? text = some v → ofJsonText? v.jsonText = some v := by
  refine ⟨ofJsonText_jsonText leaves, fun bytes => ⟨fun text => ?_, fun no_text => ?_⟩,
    fun j shown shallow => ?_, fun text read => ?_⟩
  · rw [← jsonString_text, toJson, jsonEntry_inj]
  · rw [toJson, jsonString_array no_text]
  · rw [ofJsonText_compact (shown.exact leaves) shallow, shown.read leaves]
  · obtain ⟨j, parsed, read⟩ := Option.bind_eq_some_iff.mp read
    have shallow := (height_ofJson leaves read).trans (Json.height_parse parsed)
    exact (ofJsonText_jsonText leaves).mpr shallow

/-- A string that is no text, beside one that is, and beside a blob with the same bytes. -/
theorem json_keeps_faulty :
    let v := list [string [0xff, 0x22], list [string [0xc3, 0xa9]], blob [0xff, 0x22]]
    v.Leaves NoFloat ∧
      (string [0xff, 0x22]).toJson = jsonEntry .string (jsonBytes [0xff, 0x22]) ∧
      ofJsonText? v.jsonText = some v := by
  intro v
  have text {bytes : Bytes} : (string bytes).Leaves NoFloat := .leaf rfl ⟨nofun, nofun⟩
  have raw {bytes : Bytes} : (blob bytes).Leaves NoFloat := .leaf rfl ⟨nofun, nofun⟩
  have leaves : v.Leaves NoFloat := .list (by simp [leaves_list, text, raw])
  have faulty (text : List Char) : Utf8.encodeChars text ≠ [0xff, 0x22] := by
    rw [ne_eq, ← Utf8.chars?_iff]
    exact nofun
  exact ⟨leaves, ((json_keeps leaves).2.1 _).2 faulty, (json_keeps leaves).1.mpr (by decide)⟩

end TagWire.Value
