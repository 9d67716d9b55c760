import TagWire.Proofs.Decimal.Notation
import TagWire.Proofs.Value.Quoted
import TagWire.Proofs.Value.Vocab
import TagWire.Value.Print

/-!
# Primitives, written and read

Each primitive is written as one lexeme, and what that is read as.

- `Value.Legible`: the primitives that are read back.
- `Value.lexeme`, `Value.ofLexeme`: the lexeme of a primitive, and the value of a lexeme.
- `Value.ofLexeme_iff`: a primitive is read back just where it is legible.
-/

namespace TagWire.Value

/-- The primitives that are read back from their text: four-byte integers, eight-byte integers that
four bytes cannot hold, finite numbers of eight bytes, strings, blobs, and vocabs of ASCII characters
without a closing bracket. -/
inductive Legible : Value → Prop
  | int32 (i : Int32) : Legible (.int32 i)
  | int64 {i : Int64} (wide : i.toInt < -0x80000000 ∨ 0x80000000 ≤ i.toInt) : Legible (.int64 i)
  | float64 {bits : UInt64} {negative s q}
      (finite : Binary.read Binary.double bits.toNat = .finite negative s q) : Legible (.float64 bits)
  | string (bytes : Bytes) : Legible (.string bytes)
  | blob (bytes : Bytes) : Legible (.blob bytes)
  | vocab {code : Word} {word : Bytes} {n : Nat} (spelled : code.toBytes = word ++ List.replicate n 0)
      (plain : ∀ b ∈ word, b ≠ 0 ∧ b < 0x80 ∧ b ≠ 0x5d) : Legible (.vocab code)

/-- The lexeme of a primitive, or the first one of a list. -/
def lexeme : Value → Lexeme
  | int8 v => .run (printInt v.toInt)
  | int16 v => .run (printInt v.toInt)
  | int32 v => .run (printInt v.toInt)
  | int64 v => .run (printInt v.toInt)
  | vocab code => .vocab (Vocab.unpack code).toList
  | float32 bits => .run (floatStyle.write Binary.single bits.toNat)
  | float64 bits => .run (floatStyle.write Binary.double bits.toNat)
  | string bytes => .quoted (Quoted.escape bytes)
  | blob bytes => .blob (Hex.encodeChars bytes)
  | list _ => .opening

/-- The primitive that a lexeme spells. -/
def ofLexeme : Lexeme → Except Error Value
  | .opening => .error (malformed .openList)
  | .closing => .error (malformed .strayClosing)
  | .vocab text => ofVocabText text
  | .blob digits => ofBlobDigits digits
  | .quoted raw => do return string (← Quoted.unescape raw)
  | .run text => ofRun text

section
variable {text : List Char} {i : Int} {v : Value}

/-- What an integer numeral can be. -/
theorem ofInteger_ok (read : ofInteger text i = .ok v) :
    (-0x80000000 ≤ i ∧ i < 0x80000000) ∧ v = int32 (Int32.ofInt i) ∨
      (i < -0x80000000 ∨ 0x80000000 ≤ i) ∧ v = int64 (Int64.ofInt i) := by
  unfold ofInteger at read
  split_ifs at read with large small short
  · cases read
    exact .inl ⟨short, rfl⟩
  · cases read
    exact .inr ⟨by omega, rfl⟩

theorem ofInteger_short (low : -0x80000000 ≤ i) (high : i < 0x80000000) :
    ofInteger text i = .ok (int32 (Int32.ofInt i)) := by
  rw [ofInteger, if_neg (by omega), if_neg (by omega), if_pos ⟨low, high⟩]

/-- A run is a number or a string. -/
theorem ofRun_ok (read : ofRun text = .ok v) :
    (∃ i, v = int32 i) ∨ (∃ i, v = int64 i) ∨ (∃ bits, v = float64 bits) ∨ ∃ bytes, v = string bytes := by
  unfold ofRun at read
  split at read
  · cases read
    exact .inr (.inr (.inr ⟨_, rfl⟩))
  · split at read
    · rcases ofInteger_ok read with ⟨-, rfl⟩ | ⟨-, rfl⟩
      · exact .inl ⟨_, rfl⟩
      · exact .inr (.inl ⟨_, rfl⟩)
    · cases read
      exact .inr (.inr (.inl ⟨_, rfl⟩))

end

/-- An integer is read as the number that it was written for. -/
theorem ofRun_printInt (i : Int) : ofRun (printInt i) = ofInteger (printInt i) i := by
  have shown : printInt i =
      Decimal.signChars (decide (i < 0)) ++ Decimal.digitChars i.natAbs := by
    unfold printInt
    split_ifs with negative <;> simp [Decimal.signChars, Decimal.digitChars, negative]
  have numeral : Decimal.Numeral.ofChars? (printInt i) =
      some ⟨decide (i < 0), Decimal.digitChars i.natAbs, none, none⟩ := by
    rw [shown]
    exact Decimal.Numeral.ofChars?_whole Nat.toDigits_ne_nil (Decimal.allDigits_digitChars _)
  have back : Decimal.Numeral.int? ⟨decide (i < 0), Decimal.digitChars i.natAbs, none, none⟩ =
      some i := by
    rw [Decimal.Numeral.int?]
    dsimp only
    rw [Decimal.natOfDigits_digitChars]
    simp only [decide_eq_true_eq, Option.some_inj]
    split <;> omega
  rw [ofRun, numeral]
  dsimp only
  rw [back]

theorem ofRun_int32 (i : Int32) : ofRun (printInt i.toInt) = .ok (int32 i) := by
  have low := i.le_toInt
  have high := i.toInt_lt
  rw [ofRun_printInt, ofInteger_short (by omega) (by omega), Int32.ofInt_toInt]

/-- An integer of eight bytes is read back if four bytes cannot hold it. -/
theorem ofRun_int64 {i : Int64} : ofRun (printInt i.toInt) = .ok (int64 i) ↔
    i.toInt < -0x80000000 ∨ 0x80000000 ≤ i.toInt := by
  have low := i.le_toInt
  have high := i.toInt_lt
  rw [ofRun_printInt]
  constructor
  · intro read
    rcases ofInteger_ok read with ⟨-, ⟨⟩⟩ | ⟨wide, -⟩
    exact wide
  · intro wide
    rw [ofInteger, if_neg (by omega), if_neg (by omega), if_neg (by omega), Int64.ofInt_toInt]

/-- A number of eight bytes is read back if it is finite. -/
theorem ofRun_float64 {bits : UInt64} :
    ofRun (floatStyle.write Binary.double bits.toNat) = .ok (float64 bits) ↔
      ∃ negative s q, Binary.read Binary.double bits.toNat = .finite negative s q := by
  cases parts : Binary.read Binary.double bits.toNat with
  | finite negative s q =>
    obtain ⟨n, numeral, no_integer, found⟩ :=
      @Decimal.Style.write_finite floatStyle (.inl rfl) _ _ _ _ bits.toNat_lt parts
    rw [ofRun, numeral]
    dsimp only
    rw [no_integer, found, UInt64.ofNat_toNat]
    exact ⟨fun _ => ⟨_, _, _, rfl⟩, fun _ => rfl⟩
  | infinite negative =>
    have text : floatStyle.write Binary.double bits.toNat = Decimal.signChars negative ++ "inf".toList := by
      rw [Decimal.Style.write, parts]
      rfl
    have word : Decimal.Numeral.ofChars? (Decimal.signChars negative ++ "inf".toList) = none := by
      cases negative <;> rfl
    rw [text, ofRun, word]
    constructor
    · rintro ⟨⟩
    · rintro ⟨_, _, _, ⟨⟩⟩
  | nan =>
    have text : floatStyle.write Binary.double bits.toNat = "NaN".toList := by
      rw [Decimal.Style.write, parts]
      rfl
    have word : Decimal.Numeral.ofChars? "NaN".toList = none := rfl
    rw [text, ofRun, word]
    constructor
    · rintro ⟨⟩
    · rintro ⟨_, _, _, ⟨⟩⟩

/-- No vocab of a value has a closing bracket in it. -/
def Unbracketed (v : Value) : Prop := ∀ code, v = vocab code → 0x5d ∉ code.toBytes

/-- A primitive is read back from its lexeme just where it is legible. -/
theorem ofLexeme_iff {v : Value} (unbracketed : v.Unbracketed) (primitive : v.isList = false) :
    ofLexeme v.lexeme = .ok v ↔ v.Legible := by
  cases v with
  | int8 i =>
    exact ⟨fun read => absurd (ofRun_ok read) (by simp), nofun⟩
  | int16 i =>
    exact ⟨fun read => absurd (ofRun_ok read) (by simp), nofun⟩
  | float32 bits =>
    exact ⟨fun read => absurd (ofRun_ok read) (by simp), nofun⟩
  | int32 i => exact ⟨fun _ => .int32 i, fun _ => ofRun_int32 i⟩
  | int64 i =>
    refine ofRun_int64.trans ⟨.int64, ?_⟩
    rintro (_ | ⟨wide⟩)
    exact wide
  | float64 bits =>
    refine ofRun_float64.trans ⟨fun ⟨_, _, _, finite⟩ => .float64 finite, ?_⟩
    rintro (_ | _ | ⟨finite⟩)
    exact ⟨_, _, _, finite⟩
  | string bytes =>
    refine ⟨fun _ => .string bytes, fun _ => ?_⟩
    rw [lexeme, ofLexeme, Quoted.unescape_escape]
    rfl
  | blob bytes =>
    refine ⟨fun _ => .blob bytes, fun _ => ?_⟩
    rw [lexeme, ofLexeme, ofBlobDigits, Hex.decode_encodeChars]
  | vocab code =>
    refine ofVocabText_unpack.trans ⟨?_, ?_⟩
    · rintro ⟨word, n, spelled, plain⟩
      refine .vocab spelled fun b member => ⟨(plain b member).1, (plain b member).2, ?_⟩
      rintro rfl
      exact unbracketed code rfl (spelled ▸ List.mem_append_left _ member)
    · rintro (_ | _ | _ | _ | _ | ⟨spelled, plain⟩)
      exact ⟨_, _, spelled, fun b member => ⟨(plain b member).1, (plain b member).2.1⟩⟩
  | list items => cases primitive

end TagWire.Value
