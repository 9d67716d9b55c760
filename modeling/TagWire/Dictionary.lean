/-!
# Dictionaries

Values under keys, in the order of the keys; no key stands in a dictionary twice.

- `Dictionary.insert`: adds a value, in the place of one under the same key.
- `Dictionary.get?_insert`, `Dictionary.mem_keys_insert`: what is there afterwards.
-/

namespace TagWire

structure Dictionary (α : Type) where
  entries : List (String × α)
  ordered : (entries.map Prod.fst).Pairwise (· < ·)
  deriving DecidableEq, Repr

namespace Dictionary

variable {α : Type}

def empty : Dictionary α := ⟨[], .nil⟩

def size (d : Dictionary α) : Nat := d.entries.length

def keys (d : Dictionary α) : List String := d.entries.map Prod.fst

def get? (d : Dictionary α) (key : String) : Option α := d.entries.lookup key

/-- Puts a value where its key belongs. -/
def place (key : String) (value : α) : List (String × α) → List (String × α)
  | [] => [(key, value)]
  | (other, old) :: rest =>
    if key = other then (key, value) :: rest
    else if key < other then (key, value) :: (other, old) :: rest
    else (other, old) :: place key value rest

section
variable (key : String) (value : α) (name : String) (entries : List (String × α))

theorem mem_keys_place :
    name ∈ (place key value entries).map Prod.fst ↔ name = key ∨ name ∈ entries.map Prod.fst := by
  induction entries with
  | nil => simp [place]
  | cons entry rest ih =>
    rw [place]
    split
    · rename_i same
      simp [same]
    · split
      · simp
      · simp only [List.map_cons, List.mem_cons, ih]
        exact or_left_comm

theorem lookup_cons :
    ((key, value) :: entries).lookup name = if name = key then some value else entries.lookup name := by
  by_cases named : name = key
  · simp [named]
  · simp [List.lookup_cons, named, beq_eq_false_iff_ne.mpr named]

theorem lookup_place :
    (place key value entries).lookup name = if name = key then some value else entries.lookup name := by
  induction entries with
  | nil => exact lookup_cons key value name []
  | cons entry rest ih =>
    obtain ⟨other, old⟩ := entry
    rw [place, lookup_cons other]
    split
    · rename_i same
      rw [lookup_cons, same]
      split <;> rfl
    · split
      · rw [lookup_cons, lookup_cons]
      · rename_i differs _
        rw [lookup_cons, ih]
        by_cases named : name = key
        · rw [if_pos named, if_pos named, if_neg (named ▸ differs)]
        · rw [if_neg named, if_neg named]

theorem ordered_place {entries : List (String × α)}
    (ordered : (entries.map Prod.fst).Pairwise (· < ·)) :
    ((place key value entries).map Prod.fst).Pairwise (· < ·) := by
  induction entries with
  | nil => simp [place]
  | cons entry rest ih =>
    obtain ⟨other, old⟩ := entry
    rw [List.map_cons, List.pairwise_cons] at ordered
    obtain ⟨first, behind⟩ := ordered
    rw [place]
    split
    · rename_i same
      rw [List.map_cons, List.pairwise_cons, same]
      exact ⟨first, behind⟩
    · split
      · rename_i less
        rw [List.map_cons, List.map_cons, List.pairwise_cons, List.pairwise_cons]
        refine ⟨?_, first, behind⟩
        intro name member
        rcases List.mem_cons.mp member with rfl | member
        · exact less
        · exact String.lt_trans less (first name member)
      · rename_i differs not_less
        rw [List.map_cons, List.pairwise_cons]
        refine ⟨?_, ih behind⟩
        intro name member
        rcases (mem_keys_place key value name rest).mp member with rfl | member
        · grind
        · exact first name member

end

def insert (d : Dictionary α) (key : String) (value : α) : Dictionary α :=
  ⟨place key value d.entries, ordered_place key value d.ordered⟩

section
variable (d : Dictionary α) (key : String) (value : α) (name : String)

/-- A value that is added is found under its key, and the others are found as before. -/
theorem get?_insert : (d.insert key value).get? name = if name = key then some value else d.get? name :=
  lookup_place key value name d.entries

theorem mem_keys_insert : name ∈ (d.insert key value).keys ↔ name = key ∨ name ∈ d.keys :=
  mem_keys_place key value name d.entries

end

/-- The values of a list; of those under one key the last one stays. -/
def ofList (entries : List (String × α)) : Dictionary α :=
  entries.foldl (fun d (key, value) => d.insert key value) empty

end Dictionary

end TagWire
