import TagWire.Proofs.Layout.Declared
import TagWire.Proofs.Tagged.Format

/-!
# What fields contribute to a message

A field that is hidden contributes nothing to a tagged message, and any other field one value:
behind a tag word of its own, or as an item without one.

- `Field.Contributes`, `Field.AllContribute`: the bytes and values of a field, and of fields one
  after the other.
- `Field.AllContribute.series`: the fields of a list are its items.
-/

namespace TagWire

open Tagged (Announced Body Item Primitive Series)

/-- The tag that the items of a list share, zero where they share none. -/
def Kind.shared (kind : Option Kind) : Nat := (kind.map Kind.tag).getD 0

namespace Word

theorem ofList_announces (shared : Option Kind) :
    Kind.ofTag? (ofList shared).toNat = none ∧ (ofList shared).isList = true ∧
      (ofList shared).toNat < 512 ∧
      (ofList shared).unit = Kind.shared shared := by
  rcases shared with _ | _ | _ | _ | _ | _ | _ | _ | _ | _ <;> decide

theorem ofList_inj {shared shared' : Option Kind} (h : ofList shared = ofList shared') :
    shared = shared' := by
  have same : Kind.shared shared = Kind.shared shared' := by
    rw [← (ofList_announces shared).2.2.2, h, (ofList_announces shared').2.2.2]
  cases shared with
  | none =>
    cases shared' with
    | none => rfl
    | some kind => exact absurd same (Nat.ne_of_lt kind.tag_pos)
  | some kind =>
    cases shared' with
    | none => exact absurd same (Nat.ne_of_gt kind.tag_pos)
    | some kind' =>
      have tags : kind.tag = kind'.tag := same
      rw [← Kind.ofTag?_tag kind, tags, Kind.ofTag?_tag kind']

theorem ofKind_announces (kind : Kind) :
    Kind.ofTag? (ofKind kind).toNat = some kind ∧ (ofKind kind).isList = false := by
  cases kind <;> decide

theorem not_list_of_ofTag? {w : Word} {kind : Kind} (h : Kind.ofTag? w.toNat = some kind) :
    w.isList = false := by
  have tag := Kind.tag_ofTag? h
  have bound := kind.tag_lt
  rw [isList, Nat.div_eq_of_lt (by omega)]
  rfl

theorem toBytes_inj {w w' : Word} (same : w.toBytes = w'.toBytes) : w = w' := by
  rw [← ofBytes_toBytes w, same, ofBytes_toBytes]

theorem length_ofTag {n : Nat} (bound : n < 0x80000000) : (ofTag n).length? = some n := by
  have same : (ofTag n).toNat = n := UInt32.toNat_ofNat_of_lt' (by simp only [UInt32.size]; omega)
  rw [length?, same, if_pos bound]

end Word

namespace Tagged

/-- A list behind its tag word, by its items. -/
theorem Announced.of_series {depth : Nat} {shared : Option Kind} {w : Word} {rest : Bytes}
    {items : List Value} (length : w.length? = some items.length)
    (series : Series (Item (Body depth) (Kind.shared shared)) rest items) :
    Announced (Body (depth + 1)) (Word.ofList shared) (w.toBytes ++ rest) (.list items) := by
  obtain ⟨no_kind, list, known, unit⟩ := Word.ofList_announces shared
  refine .list no_kind list known ⟨w, items, rest, rfl, length, rfl, ?_⟩
  rwa [unit]

theorem Announced.of_primitive {body : Nat → Bytes → Value → Prop} {kind : Kind} {bytes : Bytes}
    {v : Value} (h : Primitive kind bytes v) : Announced body (Word.ofKind kind) bytes v :=
  .primitive (Word.ofKind_announces kind).1 h

/-- Items of a shared kind are primitives. -/
theorem Item.of_primitive {body : Nat → Bytes → Value → Prop} {kind : Kind} {bytes : Bytes}
    {v : Value} (h : Primitive kind bytes v) : Item body (Kind.shared (some kind)) bytes v := by
  have shared : Kind.shared (some kind) ≠ 0 := Nat.ne_of_gt kind.tag_pos
  rw [Item, if_neg shared]
  exact .of_primitive h

/-- Elements of a kind are items of a list that shares it. -/
theorem Series.items {kind : Kind} {body : Nat → Bytes → Value → Prop} {bytes : Bytes}
    {vs : List Value} (series : Series (Primitive kind) bytes vs) :
    Series (Item body (Kind.shared (some kind))) bytes vs :=
  series.mono Item.of_primitive

end Tagged

namespace Field

/-- The bytes of a field in a message in which lists nest no deeper than `depth`, and the value that
they are. A field is seen from inside a list of items of a kind, or of none. -/
inductive Contributes (depth : Nat) (item : Option Kind) (f : Field) : Bytes → List Value → Prop
  | nothing (hidden : f.isVisible = false) : Contributes depth item f [] []
  | item {kind bytes v} (visible : f.isVisible = true) (is_item : f.isItem = true)
      (shared : item = some kind) (announced : Announced (Body depth) (Word.ofKind kind) bytes v) :
      Contributes depth item f bytes [v]
  | own {w bytes v} (visible : f.isVisible = true) (not_item : f.isItem = false)
      (head : f.words.head? = some w) (announced : Announced (Body depth) w bytes v) :
      Contributes depth item f (w.toBytes ++ bytes) [v]

/-- What fields contribute one after the other. -/
inductive AllContribute (depth : Nat) (item : Option Kind) : List Field → Bytes → List Value → Prop
  | nil : AllContribute depth item [] [] []
  | cons {f fields bytes rest vs others} (first : f.Contributes depth item bytes vs)
      (further : AllContribute depth item fields rest others) :
      AllContribute depth item (f :: fields) (bytes ++ rest) (vs ++ others)

variable {depth : Nat} {item : Option Kind}

theorem Contributes.series {f : Field} {bytes : Bytes} {vs : List Value}
    (h : f.Contributes depth item bytes vs) (alike : f.isVisible = true → f.isItem = item.isSome) :
    Series (Item (Body depth) (Kind.shared item)) bytes vs ∧
      vs.length = if f.isVisible then 1 else 0 := by
  cases h with
  | nothing hidden => exact ⟨.nil, by rw [hidden]; rfl⟩
  | item visible is_item shared announced =>
    subst shared
    refine ⟨?_, by rw [visible]; rfl⟩
    rw [← List.append_nil bytes]
    refine .cons ?_ .nil
    rename_i kind v
    have shared : Kind.shared (some kind) ≠ 0 := Nat.ne_of_gt kind.tag_pos
    rw [Item, if_neg shared]
    exact announced
  | own visible not_item head announced =>
    have no_item : item = none := by
      rw [← Option.isSome_eq_false_iff.trans Option.isNone_iff_eq_none, ← alike visible, not_item]
    subst no_item
    refine ⟨?_, by rw [visible]; rfl⟩
    rename_i w bytes v
    rw [← List.append_nil (w.toBytes ++ bytes)]
    refine .cons ?_ .nil
    have none_shared : Kind.shared none = 0 := rfl
    rw [Item, if_pos none_shared]
    exact ⟨w, bytes, rfl, announced⟩

/-- The fields of a list are its items, if all or none of those that are visible go without a tag
word. -/
theorem AllContribute.series {fields : List Field} {bytes : Bytes} {vs : List Value}
    (h : AllContribute depth item fields bytes vs)
    (alike : ∀ f ∈ fields, f.isVisible = true → f.isItem = item.isSome) :
    Series (Item (Body depth) (Kind.shared item)) bytes vs ∧
      vs.length = fields.countP isVisible := by
  induction h with
  | nil => exact ⟨.nil, rfl⟩
  | @cons f fields _ _ _ _ first further ih =>
    obtain ⟨series, length⟩ := first.series (alike f List.mem_cons_self)
    obtain ⟨series', length'⟩ := ih fun f member => alike f (List.mem_cons_of_mem _ member)
    refine ⟨series.append series', ?_⟩
    rw [List.length_append, length, length', List.countP_cons]
    exact Nat.add_comm _ _

section
variable {p : Payload} {bytes : Bytes} {v : Value} (visible : p.use.isHidden = false)
include visible

theorem contributes_item (primitive : Primitive p.kind bytes v) :
    (data [] p).Contributes depth (some p.kind) bytes [v] := by
  have shown : (data [] p).isVisible = true := by simp [isVisible, visible]
  exact .item shown rfl rfl (.of_primitive primitive)

theorem contributes_scalar (primitive : Primitive p.kind bytes v) :
    (data [Word.ofKind p.kind] p).Contributes depth item ((Word.ofKind p.kind).toBytes ++ bytes)
      [v] := by
  have shown : (data [Word.ofKind p.kind] p).isVisible = true := by simp [isVisible, visible]
  exact .own shown rfl rfl (.of_primitive primitive)

/-- A vector is a list of primitives. -/
theorem contributes_vector {words : List Word} {w : Word} {vs : List Value}
    (length : w.length? = some vs.length) (series : Series (Primitive p.kind) bytes vs) :
    (data (Word.ofList (some p.kind) :: words) p).Contributes (depth + 1) item
      ((Word.ofList (some p.kind)).toBytes ++ (w.toBytes ++ bytes)) [.list vs] := by
  have shown : (data (Word.ofList (some p.kind) :: words) p).isVisible = true := by
    simp [isVisible, visible]
  exact .own shown rfl rfl (.of_series length series.items)

end

/-- A list is made of what its fields contribute. -/
theorem contributes_group {shared : Option Kind} {fields : List Field} {bytes : Bytes}
    {vs : List Value} (contribute : AllContribute depth shared fields bytes vs)
    (alike : ∀ f ∈ fields, f.isVisible = true → f.isItem = shared.isSome)
    (bound : fields.countP isVisible < 0x80000000) :
    (group false [Word.ofList shared, Word.ofTag (fields.countP isVisible)] fields).Contributes
      (depth + 1) item ((Word.ofList shared).toBytes ++
        ((Word.ofTag (fields.countP isVisible)).toBytes ++ bytes)) [.list vs] := by
  obtain ⟨series, count⟩ := contribute.series alike
  have length : (Word.ofTag (fields.countP isVisible)).length? = some vs.length := by
    rw [count]
    exact Word.length_ofTag bound
  exact .own rfl rfl rfl (.of_series length series)

/-- A vector is one list. -/
theorem depth_vector (kind : Kind) (words : List Word) (p : Payload) :
    (data (Word.ofList (some kind) :: words) p).depth = 1 := by
  have list : (Word.ofList (some kind)).isList = true := (Word.ofList_announces (some kind)).2.1
  simp [depth, list]

/-- Visible fields outside of item vectors have tag words of their own. -/
theorem Declared.not_item {f : Field} (declared : f.Declared none) (visible : f.isVisible = true) :
    f.isItem = false := by
  cases declared with
  | derive => cases visible
  | hidden sound hidden => simp [isVisible, hidden] at visible
  | scalar | vector | hiddenGroup | group => rfl

/-- The visible fields of an item vector are items, where item vectors hold only these. -/
theorem alike_of_itemsOnly {shared : Option Kind} {words : List Word} {fields : List Field}
    (declared : ∀ f ∈ fields, f.Declared shared)
    (items : (group false (Word.ofList shared :: words) fields).itemsOnly = true) {f : Field}
    (member : f ∈ fields) (visible : f.isVisible = true) : f.isItem = shared.isSome := by
  cases shared with
  | none => exact (declared f member).not_item visible
  | some kind =>
    have own : Word.ofList (some kind) ≠ Word.ofList none := by cases kind <;> decide
    simp only [itemsOnly, List.head?_cons, Option.some.injEq, own, decide_false, Bool.false_or,
      Bool.and_eq_true, List.all_eq_true] at items
    have is_item := items.1 f member
    rw [visible] at is_item
    exact is_item

end Field

end TagWire
