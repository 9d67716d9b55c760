import TagWire.Bytes
import TagWire.Kind

/-!
# Tag words

A message is announced and divided by words of four bytes. A tag word is the tag of a primitive kind, or
the list bit together with the tag that all items of the list share, or the list bit alone. The same
words carry the counts of lists and the lengths of strings and blobs, as signed numbers.
-/

namespace TagWire

abbrev Word := UInt32

namespace Word

/-- The tag that a list shares with its items, or the whole tag of a primitive value. -/
def unit (w : Word) : Nat := w.toNat % 256

def isList (w : Word) : Bool := w.toNat / 256 % 2 = 1

def isDict (w : Word) : Bool := w.toNat / 512 % 2 = 1

/-- Whether some bit is set that no tag uses. -/
def isForeign (w : Word) : Bool := 1024 ≤ w.toNat

def ofTag (tag : Nat) : Word := UInt32.ofNat tag

/-- The tag word of a value of this kind. -/
def ofKind (kind : Kind) : Word := ofTag kind.tag

/-- The tag word of a list whose items share this kind, or share none. -/
def ofList (shared : Option Kind) : Word := ofTag (256 + (shared.map Kind.tag).getD 0)

def ofInt (i : Int) : Word := (Int32.ofInt i).toUInt32

/-- The word as a signed number. -/
def toInt (w : Word) : Int := w.toInt32.toInt

def toBytes (w : Word) : Bytes := Bytes.ofNat 4 w.toNat

/-- The word in four bytes. -/
def ofBytes (bytes : Bytes) : Word := UInt32.ofNat (Bytes.toNat bytes)

/-- The count or length that a word carries, none for a negative one. -/
def length? (w : Word) : Option Nat :=
  if w.toNat < 0x80000000 then some w.toNat else none

/-- What a tag word announces, for diagnostics. -/
def describe (w : Word) : String :=
  let primitive := Kind.ofTag? w.unit
  if w.isForeign then "unsupported"
  else if w.isDict then "dict"
  else if w.isList then
    if w.unit = 0 then "list"
    else (primitive.map fun kind => "list of " ++ kind.name).getD "unsupported"
  else (primitive.map Kind.name).getD "unsupported"

@[simp] theorem length_toBytes (w : Word) : w.toBytes.length = 4 :=
  Bytes.length_ofNat ..

@[simp] theorem ofBytes_toBytes (w : Word) : ofBytes w.toBytes = w := by
  have bound : w.toNat < Bytes.card 4 := w.toNat_lt
  simp only [ofBytes, toBytes, Bytes.toNat_ofNat, Nat.mod_eq_of_lt bound, UInt32.ofNat_toNat]

theorem toBytes_ofBytes {bytes : Bytes} (size : bytes.length = 4) : (ofBytes bytes).toBytes = bytes := by
  have bound : Bytes.toNat bytes < UInt32.size := by
    have := Bytes.toNat_lt bytes
    rw [size] at this
    exact this
  rw [toBytes, ofBytes, UInt32.toNat_ofNat_of_lt' bound, ← size, Bytes.ofNat_toNat]

theorem toNat_of_length {w : Word} {n : Nat} (h : w.length? = some n) : w.toNat = n ∧ n < 0x80000000 := by
  unfold length? at h
  split at h
  · rename_i bound
    cases h
    exact ⟨rfl, bound⟩
  · cases h

end Word

end TagWire
