import TagWire.Layout.Parse
import TagWire.Proofs.Layout.Sound

/-!
# Declared fields

The shapes of fields that a grammar can declare, and what a whole section may look like. A field is
seen from where it stands: directly inside an item vector it may be an item, which has no tag word
of its own.

- `Field.Declared`: the fields of a grammar without faults.
- `Field.isPlain`, `Field.itemsOnly`, `Field.depth`: fields without directives, item vectors that
  hold only items, and how deep the lists of a field nest.
-/

namespace TagWire

namespace Field

/-- A field that a grammar can declare where `item` stands for the given kind. -/
inductive Declared : Option Kind → Field → Prop
  | derive {item} (derivation : Derivation) (origin : String) :
    Declared item (.derive derivation origin)
  | hidden {item} {p : Payload} (sound : p.Sound) (hidden : p.use.isHidden = true) :
    Declared item (.data [] p)
  | item {p : Payload} (sound : p.Sound) (visible : p.use.isHidden = false) (single :
    p.count = .fixed 1) :
      Declared (some p.kind) (.data [] p)
  | scalar {item} {p : Payload} (sound : p.Sound) (visible : p.use.isHidden = false) (single :
    p.count = .fixed 1) :
      Declared item (.data [Word.ofKind p.kind] p)
  | vector {item} {p : Payload} (sound : p.Sound) (exchanged : p.use = .exchanged) :
      Declared item (.data (Word.ofList (some p.kind) :: Layout.Head.lengthWords p.count) p)
  | hiddenGroup {item inner} {fields : List Field} (declared : ∀ f ∈ fields, Declared inner f)
      (hidden : ∀ f ∈ fields, f.isVisible = false) : Declared item (.group true [] fields)
  | group {item shared} {fields : List Field} (declared : ∀ f ∈ fields, Declared shared f)
      (bound : fields.countP isVisible < 0x80000000) :
      Declared item (.group false [Word.ofList shared, Word.ofTag (fields.countP isVisible)] fields)

/-- The tag words in front of a field. -/
def words : Field → List Word
  | derive .. => []
  | data words _ => words
  | group _ words _ => words

/-- Whether the field is a list or a vector of the tagged message. -/
def isList (f : Field) : Bool := f.words.any Word.isList

/-- Whether the field has no tag word of its own, as an item of an item vector. -/
def isItem : Field → Bool
  | data words _ => words.isEmpty
  | _ => false

mutual

/-- Whether no directive is used. -/
def isPlain : Field → Bool
  | derive .. => false
  | data _ payload => payload.use = .exchanged
  | group isHidden _ fields => !isHidden && allPlain fields

def allPlain : List Field → Bool
  | [] => true
  | field :: rest => field.isPlain && allPlain rest

end

mutual

/-- Whether the item vectors hold only items, beside fields that are hidden in the
tagged message. -/
def itemsOnly : Field → Bool
  | group false words fields =>
    (words.head? = some (Word.ofList none) || fields.all fun f =>
      !f.isVisible || f.isItem) && allItemsOnly fields
  | _ => true

def allItemsOnly : List Field → Bool
  | [] => true
  | field :: rest => field.itemsOnly && allItemsOnly rest

end

mutual

/-- How many lists of the tagged message stand one inside the other in the field. -/
def depth : Field → Nat
  | derive .. => 0
  | data words _ => if words.any Word.isList then 1 else 0
  | group isHidden _ fields => if isHidden then 0 else allDepth fields + 1

def allDepth : List Field → Nat
  | [] => 0
  | field :: rest => max field.depth (allDepth rest)

end

theorem allPlain_iff {fields : List Field} :
    allPlain fields = true ↔ ∀ f ∈ fields, f.isPlain = true := by
  induction fields with
  | nil => simp [allPlain]
  | cons f rest ih => simp [allPlain, ih]

theorem allItemsOnly_iff {fields : List Field} :
    allItemsOnly fields = true ↔ ∀ f ∈ fields, f.itemsOnly = true := by
  induction fields with
  | nil => simp [allItemsOnly]
  | cons f rest ih => simp [allItemsOnly, ih]

theorem allDepth_le {fields : List Field} {n : Nat} :
    allDepth fields ≤ n ↔ ∀ f ∈ fields, f.depth ≤ n := by
  induction fields with
  | nil => simp [allDepth]
  | cons f rest ih => rw [allDepth, Nat.max_le, ih, List.forall_mem_cons]

end Field

end TagWire
