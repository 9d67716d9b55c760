import TagWire.Bytes
import TagWire.Utf8

/-!
# Properties

What the fields of a message leave behind for later fields of the same message: integers and byte strings
under names. A name keeps its first place when its value is replaced.
-/

namespace TagWire

inductive Property where
  | int (v : Int64)
  | bytes (bytes : Bytes)
  deriving DecidableEq, Repr

structure Properties where
  entries : List (String × Property) := []
  deriving DecidableEq, Repr

namespace Properties

def empty : Properties := {}

def get? (p : Properties) (name : String) : Option Property := p.entries.lookup name

def size (p : Properties) : Nat := p.entries.length

/-- Replaces the value of a name, or adds the name at the end. -/
def putEntry (name : String) (value : Property) : List (String × Property) → List (String × Property)
  | [] => [(name, value)]
  | (key, old) :: rest =>
    if key = name then (name, value) :: rest else (key, old) :: putEntry name value rest

def put (p : Properties) (name : String) (value : Property) : Properties :=
  ⟨putEntry name value p.entries⟩

/-- The integer under a name. -/
def int? (p : Properties) (name : String) : Option Int64 :=
  match p.get? name with
  | some (.int v) => some v
  | _ => none

/-- The text of the byte string under a name; faulty pieces are replaced. -/
def text? (p : Properties) (name : String) : Option String :=
  match p.get? name with
  | some (.bytes bytes) => some (Utf8.decodeLossy bytes)
  | _ => none

theorem lookup_putEntry (name other : String) (value : Property) (entries : List (String × Property)) :
    (putEntry name value entries).lookup other =
      if other = name then some value else entries.lookup other := by
  induction entries with
  | nil =>
    by_cases h : other = name
    · simp [putEntry, h]
    · simp [putEntry, List.lookup_cons, h, beq_eq_false_iff_ne.mpr h]
  | cons entry rest ih =>
    obtain ⟨key, old⟩ := entry
    by_cases same : key = name
    · by_cases h : other = name
      · simp [putEntry, same, h]
      · simp [putEntry, List.lookup_cons, same, h, beq_eq_false_iff_ne.mpr h]
    · by_cases h : other = key
      · simp [putEntry, same, h]
      · simp [putEntry, List.lookup_cons, same, ih, beq_eq_false_iff_ne.mpr h]

theorem get?_put (p : Properties) (name other : String) (value : Property) :
    (p.put name value).get? other = if other = name then some value else p.get? other :=
  lookup_putEntry ..

end Properties

end TagWire
