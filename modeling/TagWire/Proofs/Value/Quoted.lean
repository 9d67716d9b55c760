import TagWire.Proofs.Utf8
import TagWire.Value.Quoted

/-!
# Strings and blobs, written and read

What stands between quotes or braces spells the bytes that it was written for.

- `Hex.decode_encodeChars`: bytes as hexadecimal text.
- `Value.Quoted.unescape_escape`: bytes between quotes, valid UTF-8 or not.
-/

namespace TagWire

namespace Hex

/-- A digit stands for its number, is one byte, and ends no blob. -/
theorem digit_spec : ∀ n < 16, digit? (digit n) = some n ∧
    String.utf8EncodeChar (digit n) = [UInt8.ofNat (digit n).toNat] ∧
    Char.ofNat (UInt8.ofNat (digit n).toNat).toNat = digit n := by
  decide

theorem byte_of_digits (b : UInt8) : UInt8.ofNat (16 * (b.toNat / 16) + b.toNat % 16) = b := by
  rw [Nat.div_add_mod, UInt8.ofNat_toNat]

theorem digits_lt (b : UInt8) : b.toNat / 16 < 16 ∧ b.toNat % 16 < 16 := by
  have := b.toNat_lt
  omega

/-- The text of a byte has two bytes. -/
theorem text_cons (b : UInt8) (rest : Bytes) :
    Utf8.encodeChars (encodeChars (b :: rest)) =
      UInt8.ofNat (digit (b.toNat / 16)).toNat :: UInt8.ofNat (digit (b.toNat % 16)).toNat ::
        Utf8.encodeChars (encodeChars rest) := by
  obtain ⟨high, low⟩ := digits_lt b
  rw [encodeChars, List.flatMap_cons, encodeByte, Utf8.encodeChars, List.flatMap_append,
    List.flatMap_cons, List.flatMap_singleton, (digit_spec _ high).2.1, (digit_spec _ low).2.1]
  rfl

theorem decodeFrom_encodeChars (bytes : Bytes) (position : Nat) :
    decodeFrom position (Utf8.encodeChars (encodeChars bytes)) = .ok bytes := by
  induction bytes generalizing position with
  | nil => rfl
  | cons b rest ih =>
    obtain ⟨high, low⟩ := digits_lt b
    obtain ⟨high_digit, -, high_back⟩ := digit_spec _ high
    obtain ⟨low_digit, -, low_back⟩ := digit_spec _ low
    rw [text_cons, decodeFrom, high_back, low_back, high_digit, low_digit]
    dsimp only
    rw [ih, byte_of_digits]
    rfl

theorem length_text (bytes : Bytes) :
    (Utf8.encodeChars (encodeChars bytes)).length = 2 * bytes.length := by
  induction bytes with
  | nil => rfl
  | cons b rest ih =>
    rw [text_cons, List.length_cons, List.length_cons, ih, List.length_cons]
    omega

/-- Hexadecimal text is read as the bytes that it was written for. -/
theorem decode_encodeChars (bytes : Bytes) :
    decode (Utf8.encodeChars (encodeChars bytes)) = .ok bytes := by
  rw [decode, if_neg (by rw [length_text]; omega)]
  exact decodeFrom_encodeChars bytes 0

end Hex

namespace Value.Quoted

variable {rest : List Char} {bytes : Bytes}

theorem unescape_backslash {c : Char} (other : c ≠ 'x') (further : unescape rest = .ok bytes) :
    unescape ('\\' :: c :: rest) = .ok (String.utf8EncodeChar (unescapeChar c) ++ bytes) := by
  rw [unescape, further]
  · rfl
  · exact fun _ _ _ digits _ => other digits
  · exact fun digits => absurd digits other

/-- A character is read as itself, behind a backslash or without one. -/
theorem unescape_escapeChar (c : Char) (further : unescape rest = .ok bytes) :
    unescape (escapeChar c ++ rest) = .ok (String.utf8EncodeChar c ++ bytes) := by
  unfold escapeChar
  split_ifs with quote backslash newline tab carriage
  · rw [quote]
    exact unescape_backslash (by decide) further
  · rw [backslash]
    exact unescape_backslash (by decide) further
  · rw [newline]
    exact unescape_backslash (by decide) further
  · rw [tab]
    exact unescape_backslash (by decide) further
  · rw [carriage]
    exact unescape_backslash (by decide) further
  · rw [List.singleton_append, unescape, further]
    · rfl
    · exact fun _ _ _ plain _ => backslash plain
    · exact fun _ plain _ => backslash plain
    · exact fun _ _ plain _ => backslash plain

/-- Faulty bytes are read from their digits. -/
theorem unescape_faulty (faulty : Bytes) (further : unescape rest = .ok bytes) :
    unescape ((faulty.flatMap fun b => '\\' :: 'x' :: Hex.encodeByte b) ++ rest) =
      .ok (faulty ++ bytes) := by
  induction faulty with
  | nil => exact further
  | cons b others ih =>
    obtain ⟨high, low⟩ := Hex.digits_lt b
    rw [List.flatMap_cons, Hex.encodeByte]
    simp only [List.cons_append, List.nil_append]
    rw [unescape, (Hex.digit_spec _ high).1, (Hex.digit_spec _ low).1]
    dsimp only
    rw [ih, Hex.byte_of_digits]
    rfl

theorem unescape_escapePiece (piece : Utf8.Piece) (further : unescape rest = .ok bytes) :
    unescape (escapePiece piece ++ rest) = .ok (piece.bytes ++ bytes) := by
  cases piece with
  | char c => exact unescape_escapeChar c further
  | faulty faulty => exact unescape_faulty faulty further

theorem unescape_pieces (pieces : List Utf8.Piece) :
    unescape (pieces.flatMap escapePiece) = .ok (pieces.flatMap Utf8.Piece.bytes) := by
  induction pieces with
  | nil => rfl
  | cons piece rest ih =>
    rw [List.flatMap_cons, List.flatMap_cons]
    exact unescape_escapePiece piece ih

/-- What is written between quotes is read as the bytes that it was written for. -/
theorem unescape_escape (bytes : Bytes) : unescape (escape bytes) = .ok bytes := by
  rw [escape, unescape_pieces, Utf8.bytes_pieces]

end Value.Quoted

end TagWire
