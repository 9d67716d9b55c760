import Mathlib.Data.List.TakeWhile
import TagWire.Proofs.Utf8
import TagWire.Value.Parse

/-!
# Vocabs, written and read

A vocab is written in Latin-1 and read in UTF-8, which are the same for ASCII characters alone.

- `Vocab.latin`: the characters of bytes.
- `Vocab.latin_ascii`: the bytes that are the same in UTF-8.
- `Value.ofVocabText_unpack`: the vocabs that are read back.
-/

namespace TagWire

theorem Bytes.toNat_append_zeros (bytes : Bytes) (n : Nat) :
    toNat (bytes ++ List.replicate n 0) = toNat bytes := by
  induction bytes with
  | nil =>
    induction n with
    | zero => rfl
    | succ n ih =>
      rw [List.nil_append] at ih ⊢
      have zero : toNat (0 :: List.replicate n 0) = 0 + 256 * toNat (List.replicate n 0) := rfl
      rw [List.replicate_succ, zero, ih]
      rfl
  | cons b rest ih => rw [List.cons_append, toNat, toNat, ih]

/-- Fewer bytes than a word has are its lowest. -/
theorem Word.toBytes_ofBytes_short {bytes : Bytes} (short : bytes.length ≤ 4) :
    (ofBytes bytes).toBytes = bytes ++ List.replicate (4 - bytes.length) 0 := by
  have size : (bytes ++ List.replicate (4 - bytes.length) 0).length = 4 := by
    rw [List.length_append, List.length_replicate]
    omega
  have same : ofBytes (bytes ++ List.replicate (4 - bytes.length) 0) = ofBytes bytes := by
    rw [ofBytes, Bytes.toNat_append_zeros, ofBytes]
  rw [← same, toBytes_ofBytes size]

namespace Vocab

/-- The characters of bytes in Latin-1. -/
def latin (bytes : Bytes) : List Char := bytes.map fun b => Char.ofNat b.toNat

theorem toList_unpack (code : Word) :
    (unpack code).toList = latin (code.toBytes.takeWhile (· ≠ 0)) := String.toList_ofList

theorem toNat_latin (b : UInt8) : (Char.ofNat b.toNat).val.toNat = b.toNat :=
  Utf8.val_ofNat (.inl (by have := b.toNat_lt; omega))

/-- In UTF-8 bytes are no fewer, and they are more unless all are ASCII. -/
theorem length_latin (bytes : Bytes) :
    bytes.length ≤ (Utf8.encodeChars (latin bytes)).length ∧
      ((Utf8.encodeChars (latin bytes)).length ≤ bytes.length → ∀ b ∈ bytes, b.toNat < 0x80) := by
  induction bytes with
  | nil => exact ⟨Nat.le_refl _, fun _ _ member => absurd member List.not_mem_nil⟩
  | cons b rest ih =>
    obtain ⟨grows, ascii⟩ := ih
    have shown : (Utf8.encodeChars (latin (b :: rest))).length =
        (Char.ofNat b.toNat).utf8Size + (Utf8.encodeChars (latin rest)).length := by
      rw [latin, List.map_cons, Utf8.encodeChars, List.flatMap_cons, List.length_append,
        String.length_utf8EncodeChar]
      rfl
    have some_byte := (Char.ofNat b.toNat).utf8Size_pos
    rw [shown, List.length_cons]
    refine ⟨by omega, fun short => ?_⟩
    have single : (Char.ofNat b.toNat).val ≤ 127 := Char.utf8Size_eq_one_iff.mp (by omega)
    have small : (Char.ofNat b.toNat).val.toNat ≤ 127 := UInt32.le_iff_toNat_le.mp single
    rw [toNat_latin] at small
    rintro b' (_ | ⟨_, member⟩)
    · omega
    · exact ascii (by omega) b' member

/-- ASCII is the same in both. -/
theorem encode_latin {bytes : Bytes} (ascii : ∀ b ∈ bytes, b.toNat < 0x80) :
    Utf8.encodeChars (latin bytes) = bytes := by
  induction bytes with
  | nil => rfl
  | cons b rest ih =>
    have further := ih fun b member => ascii b (List.mem_cons_of_mem _ member)
    rw [latin, List.map_cons, Utf8.encodeChars, List.flatMap_cons,
      Utf8.encode_one (ascii b List.mem_cons_self)]
    exact congrArg (b :: ·) further

end Vocab

namespace Value

/-- A text of up to four bytes is a vocab. -/
theorem ofVocabText_ok {text : List Char} {v : Value} :
    ofVocabText text = .ok v ↔ (Utf8.encodeChars text).length ≤ 4 ∧
      v = vocab (Word.ofBytes (Utf8.encodeChars text)) := by
  unfold ofVocabText
  split_ifs with long
  · constructor
    · nofun
    · exact fun ⟨short, _⟩ => absurd long (by omega)
  · have packed : Vocab.pack (String.ofList text) = Word.ofBytes (Utf8.encodeChars text) := by
      rw [Vocab.pack, Utf8.encode, String.toList_ofList, List.take_of_length_le (by omega)]
    rw [packed]
    constructor
    · rintro ⟨⟩
      exact ⟨by omega, rfl⟩
    · rintro ⟨-, rfl⟩
      rfl

/-- No byte of a character is zero but that of the character zero. -/
theorem zero_notMem {text : List Char} (some_chars : ∀ c ∈ text, c.toNat ≠ 0) :
    0 ∉ Utf8.encodeChars text := by
  intro member
  obtain ⟨c, shown, byte⟩ := List.mem_flatMap.mp member
  exact some_chars c shown (Utf8.ascii_of_mem byte (by decide))

theorem takeWhile_zeros {bytes word : Bytes} {n : Nat} (spelled : bytes = word ++ List.replicate n 0)
    (nonzero : 0 ∉ word) : bytes.takeWhile (· ≠ 0) = word := by
  have shown : ∀ b ∈ word, decide (b ≠ 0) = true := by
    intro b member
    simp only [decide_eq_true_eq]
    rintro rfl
    exact nonzero member
  rw [spelled, List.takeWhile_append_of_pos shown]
  cases n with
  | zero => exact List.append_nil _
  | succ n =>
    rw [List.replicate_succ, List.takeWhile_cons_of_neg (by decide)]
    exact List.append_nil _

/-- The vocabs that are read back are those of ASCII characters. -/
theorem ofVocabText_unpack {code : Word} :
    ofVocabText (Vocab.unpack code).toList = .ok (vocab code) ↔
      ∃ word n, code.toBytes = word ++ List.replicate n 0 ∧ ∀ b ∈ word, b ≠ 0 ∧ b.toNat < 0x80 := by
  rw [ofVocabText_ok, Vocab.toList_unpack]
  constructor
  · have nonzero : ∀ b ∈ code.toBytes.takeWhile (· ≠ 0), b ≠ 0 := by
      intro b member
      simpa using List.mem_takeWhile_imp member
    have bytes_of := @takeWhile_zeros code.toBytes
    generalize code.toBytes.takeWhile (· ≠ 0) = word at *
    rintro ⟨short, same⟩
    have bytes := Word.toBytes_ofBytes_short short
    rw [← Value.vocab.inj same] at bytes
    have some_chars : 0 ∉ Utf8.encodeChars (Vocab.latin word) := by
      apply zero_notMem
      intro c member
      obtain ⟨b, shown, rfl⟩ := List.mem_map.mp member
      rw [Char.toNat, Vocab.toNat_latin]
      exact fun zero => nonzero b shown (UInt8.toNat_inj.mp zero)
    -- a word that is as long in UTF-8 is all ASCII
    have whole : word = Utf8.encodeChars (Vocab.latin word) := bytes_of bytes some_chars
    obtain ⟨-, ascii⟩ := Vocab.length_latin word
    rw [← whole] at bytes ascii
    exact ⟨word, _, bytes, fun b member => ⟨nonzero b member, ascii (Nat.le_refl _) b member⟩⟩
  · rintro ⟨word, n, bytes, plain⟩
    have some_chars : 0 ∉ word := fun member => (plain 0 member).1 rfl
    have length : word.length + n = 4 := by
      rw [← Word.length_toBytes code, bytes, List.length_append, List.length_replicate]
    rw [takeWhile_zeros bytes some_chars, Vocab.encode_latin fun b member => (plain b member).2]
    refine ⟨by omega, ?_⟩
    rw [← Word.ofBytes_toBytes code, bytes, Word.ofBytes, Word.ofBytes, Bytes.toNat_append_zeros]

/-- A text without a closing bracket gives no vocab with one. -/
theorem bracket_notMem_code {text : List Char} (plain : ']' ∉ text) {code : Word}
    (read : ofVocabText text = .ok (vocab code)) : 0x5d ∉ code.toBytes := by
  obtain ⟨short, same⟩ := ofVocabText_ok.mp read
  rw [Value.vocab.inj same, Word.toBytes_ofBytes_short short, List.mem_append, not_or]
  refine ⟨fun member => ?_, fun zero => absurd (List.eq_of_mem_replicate zero) (by decide)⟩
  obtain ⟨c, shown, byte⟩ := List.mem_flatMap.mp member
  have bracket : c = ']' := Char.ext (UInt32.toNat_inj.mp (Utf8.ascii_of_mem byte (by decide)))
  exact plain (bracket ▸ shown)

/-- A vocab without a closing bracket is written without one. -/
theorem bracket_notMem_unpack {code : Word} (plain : 0x5d ∉ code.toBytes) :
    ']' ∉ (Vocab.unpack code).toList := by
  rw [Vocab.toList_unpack]
  intro member
  obtain ⟨b, shown, bracket⟩ := List.mem_map.mp member
  have same := Vocab.toNat_latin b
  rw [bracket] at same
  have byte : b = 0x5d := UInt8.toNat_inj.mp same.symm
  exact plain (byte ▸ (List.takeWhile_sublist _).subset shown)

end Value

end TagWire
