import Mathlib.Data.List.Basic
import Mathlib.Tactic.SplitIfs
import TagWire.Utf8

/-!
# The pieces of byte strings

The characters and faulty pieces of a byte string are together the bytes that it has, and those of a text
are its characters.

- `Utf8.Piece.bytes`: the bytes of a piece.
- `Utf8.Begun.Sound`: what has been seen of a character, by what completes it.
- `Utf8.bytes_pieces`: nothing is lost in pieces.
- `Utf8.chars?_iff`: the bytes of a text are read as that text, and others as none.
-/

namespace TagWire.Utf8

/-- The bytes of a piece. -/
def Piece.bytes : Piece → Bytes
  | .char c => String.utf8EncodeChar c
  | .faulty bytes => bytes

theorem val_ofNat {n : Nat} (valid : n.isValidChar) : (Char.ofNat n).val.toNat = n := by
  rw [Char.ofNat, dif_pos valid]
  rfl

section
variable {a b c d : UInt8}

theorem cons_bytes {n : Nat} {rest others : Bytes} (first : n = a.toNat) (further : rest = others) :
    UInt8.ofNat n :: rest = a :: others := by
  rw [first, UInt8.ofNat_toNat, further]

/-- A character of one byte. -/
theorem encode_one (small : a.toNat < 0x80) : String.utf8EncodeChar (Char.ofNat a.toNat) = [a] := by
  rw [String.utf8EncodeChar, val_ofNat (.inl (by omega)), if_pos (by omega), UInt8.ofNat_toNat]

/-- A byte below 0x80 is a character of its own. -/
theorem ascii_of_mem {character : Char} (member : b ∈ String.utf8EncodeChar character)
    (ascii : b.toNat < 0x80) : character.toNat = b.toNat := by
  have size : character.val.toNat < 0x110000 := by
    have := character.valid
    unfold UInt32.isValidChar Nat.isValidChar at this
    omega
  rw [String.utf8EncodeChar] at member
  rw [Char.toNat]
  split_ifs at member with one two three
  all_goals
    simp only [List.mem_cons, List.not_mem_nil, or_false] at member
  · rw [member, UInt8.toNat_ofNat']
    omega
  · rcases member with rfl | rfl <;> rw [UInt8.toNat_ofNat'] at ascii <;> omega
  · rcases member with rfl | rfl | rfl <;> rw [UInt8.toNat_ofNat'] at ascii <;> omega
  · rcases member with rfl | rfl | rfl | rfl <;> rw [UInt8.toNat_ofNat'] at ascii <;> omega

/-- Whether a byte goes on with a character. -/
def Continues (b : UInt8) : Prop := 0x80 ≤ b.toNat ∧ b.toNat ≤ 0xbf

/-- A character of two bytes. -/
theorem encode_two (low : 0xc2 ≤ a.toNat) (high : a.toNat < 0xe0) (second : Continues b) :
    String.utf8EncodeChar (Char.ofNat (64 * (a.toNat - 0xc0) + (b.toNat - 0x80))) = [a, b] := by
  obtain ⟨b_low, b_high⟩ := second
  rw [String.utf8EncodeChar, val_ofNat (.inl (by omega)), if_neg (by omega), if_pos (by omega)]
  exact cons_bytes (by omega) (cons_bytes (by omega) rfl)

/-- A character of three bytes, if it is no surrogate and not too small. -/
theorem encode_three (low : 0xe0 ≤ a.toNat) (high : a.toNat < 0xf0) (second : Continues b)
    (third : Continues c) (large : a.toNat = 0xe0 → 0xa0 ≤ b.toNat)
    (whole : a.toNat = 0xed → b.toNat < 0xa0) :
    String.utf8EncodeChar
      (Char.ofNat (64 * (64 * (a.toNat - 0xe0) + (b.toNat - 0x80)) + (c.toNat - 0x80))) =
        [a, b, c] := by
  obtain ⟨b_low, b_high⟩ := second
  obtain ⟨c_low, c_high⟩ := third
  have valid : (64 * (64 * (a.toNat - 0xe0) + (b.toNat - 0x80)) + (c.toNat - 0x80)).isValidChar := by
    unfold Nat.isValidChar
    omega
  rw [String.utf8EncodeChar, val_ofNat valid, if_neg (by omega), if_neg (by omega),
    if_pos (by omega)]
  exact cons_bytes (by omega) (cons_bytes (by omega) (cons_bytes (by omega) rfl))

/-- A character of four bytes, if it is one and not too small. -/
theorem encode_four (low : 0xf0 ≤ a.toNat) (high : a.toNat < 0xf5) (second : Continues b)
    (third : Continues c) (fourth : Continues d) (large : a.toNat = 0xf0 → 0x90 ≤ b.toNat)
    (within : a.toNat = 0xf4 → b.toNat < 0x90) :
    String.utf8EncodeChar
      (Char.ofNat (64 * (64 * (64 * (a.toNat - 0xf0) + (b.toNat - 0x80)) + (c.toNat - 0x80)) +
        (d.toNat - 0x80))) = [a, b, c, d] := by
  obtain ⟨b_low, b_high⟩ := second
  obtain ⟨c_low, c_high⟩ := third
  obtain ⟨d_low, d_high⟩ := fourth
  have valid : (64 * (64 * (64 * (a.toNat - 0xf0) + (b.toNat - 0x80)) + (c.toNat - 0x80)) +
      (d.toNat - 0x80)).isValidChar := by
    unfold Nat.isValidChar
    omega
  rw [String.utf8EncodeChar, val_ofNat valid, if_neg (by omega), if_neg (by omega),
    if_neg (by omega)]
  exact cons_bytes (by omega)
    (cons_bytes (by omega) (cons_bytes (by omega) (cons_bytes (by omega) rfl)))

end

/-- The bits of a character with those of further bytes. -/
def gather (bits : Nat) (rest : Bytes) : Nat :=
  rest.foldl (fun bits b => 64 * bits + (b.toNat - 0x80)) bits

theorem gather_cons (bits : Nat) (b : UInt8) (rest : Bytes) :
    gather bits (b :: rest) = gather (64 * bits + (b.toNat - 0x80)) rest :=
  List.foldl_cons ..

/-- With the bytes that are owed, what has been seen is a character. -/
structure Begun.Sound (s : Begun) : Prop where
  owes : 0 < s.owed
  completes : ∀ {b rest}, s.low ≤ b.toNat → b.toNat ≤ s.high → (∀ t ∈ rest, Continues t) →
    rest.length + 1 = s.owed →
      String.utf8EncodeChar (Char.ofNat (gather s.bits (b :: rest))) = s.seen ++ b :: rest

theorem sound_two {a : UInt8} (low : 0xc2 ≤ a.toNat) (high : a.toNat < 0xe0) :
    (⟨[a], a.toNat - 0xc0, 1, 0x80, 0xbf⟩ : Begun).Sound := by
  refine ⟨Nat.zero_lt_succ _, fun {b rest} b_low b_high further length => ?_⟩
  obtain rfl : rest = [] := List.length_eq_zero_iff.mp (Nat.succ.inj length)
  exact encode_two low high ⟨b_low, b_high⟩

theorem sound_three {a : UInt8} {bits least most : Nat} (bits_eq : a.toNat = 0xe0 + bits)
    (small : bits < 0x10) (from_least : 0x80 ≤ least) (to_most : most ≤ 0xbf)
    (large : bits = 0 → 0xa0 ≤ least) (whole : bits = 0xd → most < 0xa0) :
    (⟨[a], bits, 2, least, most⟩ : Begun).Sound := by
  refine ⟨Nat.zero_lt_succ _, fun {b rest} b_low b_high further length => ?_⟩
  obtain ⟨c, rfl⟩ := List.length_eq_one_iff.mp (Nat.succ.inj length)
  dsimp only at b_low b_high
  have encoded := @encode_three a b c (by omega) (by omega) ⟨by omega, by omega⟩
    (further c List.mem_cons_self) (by omega) (by omega)
  rwa [bits_eq, Nat.add_sub_cancel_left] at encoded

theorem sound_four {a : UInt8} {bits least most : Nat} (bits_eq : a.toNat = 0xf0 + bits)
    (small : bits < 5) (from_least : 0x80 ≤ least) (to_most : most ≤ 0xbf)
    (large : bits = 0 → 0x90 ≤ least) (within : bits = 4 → most < 0x90) :
    (⟨[a], bits, 3, least, most⟩ : Begun).Sound := by
  refine ⟨Nat.zero_lt_succ _, fun {b rest} b_low b_high further length => ?_⟩
  obtain ⟨c, d, rfl⟩ := List.length_eq_two.mp (Nat.succ.inj length)
  dsimp only at b_low b_high
  have encoded := @encode_four a b c d (by omega) (by omega) ⟨by omega, by omega⟩
    (further c List.mem_cons_self) (further d (List.mem_cons_of_mem _ List.mem_cons_self))
    (by omega) (by omega)
  rwa [bits_eq, Nat.add_sub_cancel_left] at encoded

/-- What the first byte of a character starts. -/
theorem begin_spec (a : UInt8) :
    match begin a with
    | .inl piece => piece.bytes = [a]
    | .inr s => s.seen = [a] ∧ s.Sound := by
  unfold begin
  dsimp only
  split_ifs with one stray two e0 ed three f0 f3 f4
  · exact encode_one one
  · rfl
  · exact ⟨rfl, sound_two (by omega) two⟩
  · exact ⟨rfl, sound_three (by omega) (by omega) (by omega) (by omega) (by omega) (by omega)⟩
  · exact ⟨rfl, sound_three (by omega) (by omega) (by omega) (by omega) (by omega) (by omega)⟩
  · exact ⟨rfl, sound_three (by omega) (by omega) (by omega) (by omega) (by omega) (by omega)⟩
  · exact ⟨rfl, sound_four (by omega) (by omega) (by omega) (by omega) (by omega) (by omega)⟩
  · exact ⟨rfl, sound_four (by omega) (by omega) (by omega) (by omega) (by omega) (by omega)⟩
  · exact ⟨rfl, sound_four (by omega) (by omega) (by omega) (by omega) (by omega) (by omega)⟩
  · rfl

/-- The next byte completes a character, or the character has still begun. -/
theorem Begun.Sound.next {s : Begun} (sound : s.Sound) (b : UInt8) :
    match s.next b with
    | some (.inl piece) => piece.bytes = s.seen ++ [b]
    | some (.inr s') => s'.seen = s.seen ++ [b] ∧ s'.Sound
    | none => True := by
  unfold Begun.next
  dsimp only
  have owes := sound.owes
  split_ifs with within last
  · have single : ([] : Bytes).length + 1 = s.owed := by rw [List.length_nil]; omega
    have none_further : ∀ t ∈ ([] : Bytes), Continues t := nofun
    have whole := sound.completes within.1 within.2 none_further single
    dsimp only [Piece.bytes]
    exact whole
  · have behind : 0 < s.owed - 1 := by omega
    refine ⟨rfl, behind, fun {c rest} c_low c_high further length => ?_⟩
    dsimp only at length
    have both : ∀ t ∈ c :: rest, Continues t := by
      rintro t (_ | ⟨_, member⟩)
      · exact ⟨c_low, c_high⟩
      · exact further t member
    have owed : (c :: rest).length + 1 = s.owed := by rw [List.length_cons]; omega
    have whole := sound.completes within.1 within.2 both owed
    rw [gather_cons] at whole
    rw [← List.append_cons]
    exact whole
  · trivial

/-- The pieces of a byte string have all of its bytes. -/
theorem bytes_piecesFrom (bytes : Bytes) :
    (piecesFrom none bytes).flatMap Piece.bytes = bytes ∧
      ∀ s : Begun, s.Sound → (piecesFrom (some s) bytes).flatMap Piece.bytes = s.seen ++ bytes := by
  induction bytes with
  | nil =>
    refine ⟨rfl, fun s _ => ?_⟩
    simp [piecesFrom, Piece.bytes]
  | cons b rest ih =>
    obtain ⟨apart, going⟩ := ih
    have fresh : (piecesFrom none (b :: rest)).flatMap Piece.bytes = b :: rest := by
      have spec := begin_spec b
      rw [piecesFrom]
      cases begun : begin b with
      | inl piece =>
        rw [begun] at spec
        dsimp only at spec ⊢
        rw [List.flatMap_cons, spec, apart, List.singleton_append]
      | inr s =>
        rw [begun] at spec
        dsimp only at spec ⊢
        rw [going s spec.2, spec.1, List.singleton_append]
    refine ⟨fresh, fun s sound => ?_⟩
    have spec := sound.next b
    rw [piecesFrom]
    cases went : s.next b with
    | none =>
      dsimp only
      rw [piecesFrom] at fresh
      rw [List.flatMap_cons, fresh]
      rfl
    | some on =>
      rw [went] at spec
      cases on with
      | inl piece =>
        dsimp only at spec ⊢
        rw [List.flatMap_cons, spec, apart, List.append_assoc, List.singleton_append]
      | inr s' =>
        dsimp only at spec ⊢
        rw [going s' spec.2, spec.1, List.append_assoc, List.singleton_append]

/-- Nothing of a byte string is lost in its pieces. -/
theorem bytes_pieces (bytes : Bytes) : (pieces bytes).flatMap Piece.bytes = bytes :=
  (bytes_piecesFrom bytes).1

/-- The bytes that are owed complete a character. -/
theorem piecesFrom_begun {s : Begun} {b : UInt8} {more : Bytes} (low : s.low ≤ b.toNat)
    (high : b.toNat ≤ s.high) (further : ∀ t ∈ more, Continues t) (owed : more.length + 1 = s.owed)
    (rest : Bytes) :
    piecesFrom (some s) (b :: more ++ rest) =
      .char (Char.ofNat (gather s.bits (b :: more))) :: piecesFrom none rest := by
  induction more generalizing s b with
  | nil =>
    have next : s.next b = some (.inl (.char (Char.ofNat (64 * s.bits + (b.toNat - 0x80))))) := by
      rw [Begun.next]
      dsimp only
      rw [if_pos ⟨low, high⟩, if_pos (by rw [← owed]; exact Nat.le_refl 1)]
    rw [List.singleton_append, piecesFrom, next]
    rfl
  | cons c more ih =>
    obtain ⟨c_continues, others⟩ := List.forall_mem_cons.mp further
    rw [List.length_cons] at owed
    have next : s.next b =
        some (.inr ⟨s.seen ++ [b], 64 * s.bits + (b.toNat - 0x80), s.owed - 1, 0x80, 0xbf⟩) := by
      rw [Begun.next]
      dsimp only
      rw [if_pos ⟨low, high⟩, if_neg (by omega)]
    rw [List.cons_append, piecesFrom, next]
    dsimp only
    rw [ih c_continues.1 c_continues.2 others (by dsimp only; omega), gather_cons s.bits b]

theorem begin_two {a : UInt8} (low : 0xc2 ≤ a.toNat) (high : a.toNat < 0xe0) :
    begin a = .inr ⟨[a], a.toNat - 0xc0, 1, 0x80, 0xbf⟩ := by
  unfold begin
  dsimp only
  rw [if_neg (by omega), if_neg (by omega), if_pos high]

/-- The second byte of three has its usual range, but for characters that are too small and for
surrogates. -/
theorem begin_three {a : UInt8} (low : 0xe0 ≤ a.toNat) (high : a.toNat < 0xf0) :
    ∃ least most, begin a = .inr ⟨[a], a.toNat - 0xe0, 2, least, most⟩ ∧
      ∀ b, Continues b → (a.toNat = 0xe0 → 0xa0 ≤ b.toNat) → (a.toNat = 0xed → b.toNat < 0xa0) →
        least ≤ b.toNat ∧ b.toNat ≤ most := by
  unfold begin Continues
  dsimp only
  rw [if_neg (by omega), if_neg (by omega), if_neg (by omega)]
  split_ifs with e0 ed
  · exact ⟨_, _, by rw [e0], fun b _ large _ => by omega⟩
  · exact ⟨_, _, by rw [ed], fun b _ _ whole => by omega⟩
  · exact ⟨_, _, rfl, fun b continues _ _ => continues⟩

/-- The second byte of four has its usual range, but for characters that are too small and for
numbers that are no characters. -/
theorem begin_four {a : UInt8} (low : 0xf0 ≤ a.toNat) (high : a.toNat < 0xf5) :
    ∃ least most, begin a = .inr ⟨[a], a.toNat - 0xf0, 3, least, most⟩ ∧
      ∀ b, Continues b → (a.toNat = 0xf0 → 0x90 ≤ b.toNat) → (a.toNat = 0xf4 → b.toNat < 0x90) →
        least ≤ b.toNat ∧ b.toNat ≤ most := by
  unfold begin Continues
  dsimp only
  rw [if_neg (by omega), if_neg (by omega), if_neg (by omega), if_neg (by omega),
    if_neg (by omega), if_neg (by omega)]
  split_ifs with f0 f3 f4
  · exact ⟨_, _, by rw [f0], fun b _ large _ => by omega⟩
  · exact ⟨_, _, rfl, fun b continues _ _ => continues⟩
  · exact ⟨_, _, by rw [f4], fun b _ _ within => by omega⟩
  · omega

/-- The six bits that a further byte of a character carries. -/
def further (n : Nat) : UInt8 := UInt8.ofNat (n % 64 + 128)

theorem toNat_further (n : Nat) : (further n).toNat = n % 64 + 128 := by
  rw [further, UInt8.toNat_ofNat']
  omega

theorem continues_further (n : Nat) : Continues (further n) := by
  unfold Continues
  rw [toNat_further]
  omega

theorem gather_further (bits n : Nat) (rest : Bytes) :
    gather bits (further n :: rest) = gather (64 * bits + n % 64) rest := by
  rw [gather_cons, toNat_further, Nat.add_sub_cancel]

theorem toNat_ofNat_small {n : Nat} (small : n < 256) : (UInt8.ofNat n).toNat = n := by
  rw [UInt8.toNat_ofNat']
  omega

/-- A character that has begun is read with the bytes that it is owed. -/
theorem piecesFrom_further {a b : UInt8} {bits owed least most : Nat} (more : Bytes)
    (begun : begin a = .inr ⟨[a], bits, owed, least, most⟩)
    (range : least ≤ b.toNat ∧ b.toNat ≤ most) (continues : ∀ t ∈ more, Continues t)
    (length : more.length + 1 = owed) (rest : Bytes) :
    piecesFrom none (a :: b :: more ++ rest) =
      .char (Char.ofNat (gather bits (b :: more))) :: piecesFrom none rest := by
  rw [List.cons_append, piecesFrom, begun]
  exact piecesFrom_begun range.1 range.2 continues length rest

/-- A character is read from its bytes. -/
theorem piecesFrom_encode (c : Char) (rest : Bytes) :
    piecesFrom none (String.utf8EncodeChar c ++ rest) = .char c :: piecesFrom none rest := by
  have valid : c.val.toNat < 0x110000 ∧ (c.val.toNat < 0xd800 ∨ 0xdfff < c.val.toNat) := by
    have := c.valid
    unfold UInt32.isValidChar Nat.isValidChar at this
    omega
  have back {n : Nat} (same : n = c.val.toNat) : Char.ofNat n = c := same ▸ Char.ofNat_toNat c
  rw [String.utf8EncodeChar]
  generalize c.val.toNat = v at valid back
  split_ifs with one two three
  · have first : begin (UInt8.ofNat v) = .inl (.char c) := by
      unfold begin
      dsimp only
      rw [toNat_ofNat_small (by omega), if_pos (by omega), back rfl]
    rw [List.singleton_append, piecesFrom, first]
  · have a_eq := toNat_ofNat_small (n := v / 64 % 32 + 192) (by omega)
    have begun := begin_two (a := UInt8.ofNat (v / 64 % 32 + 192)) (by omega) (by omega)
    have read := piecesFrom_further [] begun (continues_further v) nofun rfl rest
    rw [gather_further, a_eq, gather, List.foldl_nil, back (by omega)] at read
    exact read
  · have a_eq := toNat_ofNat_small (n := v / 4096 % 16 + 224) (by omega)
    have b_eq := toNat_further (v / 64)
    obtain ⟨least, most, begun, range⟩ :=
      begin_three (a := UInt8.ofNat (v / 4096 % 16 + 224)) (by omega) (by omega)
    have read := piecesFrom_further [further v] begun
      (range _ (continues_further (v / 64)) (by omega) (by omega)) (by simp [continues_further]) rfl
      rest
    rw [gather_further, gather_further, a_eq, gather, List.foldl_nil, back (by omega)] at read
    exact read
  · have a_eq := toNat_ofNat_small (n := v / 262144 % 8 + 240) (by omega)
    have b_eq := toNat_further (v / 4096)
    obtain ⟨least, most, begun, range⟩ :=
      begin_four (a := UInt8.ofNat (v / 262144 % 8 + 240)) (by omega) (by omega)
    have read := piecesFrom_further [further (v / 64), further v] begun
      (range _ (continues_further (v / 4096)) (by omega) (by omega)) (by simp [continues_further])
      rfl rest
    rw [gather_further, gather_further, gather_further, a_eq, gather, List.foldl_nil,
      back (by omega)] at read
    exact read

/-- The characters of a text are read from its bytes. -/
theorem pieces_encodeChars (text : List Char) : pieces (encodeChars text) = text.map .char := by
  induction text with
  | nil => rfl
  | cons c text ih =>
    rw [encodeChars, List.flatMap_cons, pieces, piecesFrom_encode]
    exact congrArg (List.cons _) ih

/-- The pieces are characters one and all if and only if these are the pieces. -/
theorem mapM_char? {pieces : List Piece} {text : List Char} :
    pieces.mapM Piece.char? = some text ↔ pieces = text.map .char := by
  induction pieces generalizing text with
  | nil => simp [eq_comm (a := ([] : List Char)), eq_comm (a := ([] : List Piece))]
  | cons piece rest ih =>
    rw [List.mapM_cons]
    cases piece with
    | faulty bytes => cases text <;> simp [Piece.char?]
    | char c =>
      cases others : rest.mapM Piece.char? with
      | none =>
        have no_text (text : List Char) : rest ≠ text.map .char := fun same => by
          rw [ih.mpr same] at others
          cases others
        cases text <;> simp [Piece.char?, no_text]
      | some chars =>
        rw [ih.mp others]
        cases text with
        | nil => simp [Piece.char?]
        | cons d text =>
          simp [Piece.char?, List.map_inj_right fun _ _ => Piece.char.inj]

/-- Characters are read from a byte string if and only if it is their text. -/
theorem chars?_iff {bytes : Bytes} {text : List Char} :
    chars? bytes = some text ↔ encodeChars text = bytes := by
  rw [chars?, mapM_char?]
  constructor
  · intro same
    rw [← bytes_pieces bytes, same, List.flatMap_map]
    rfl
  · rintro rfl
    exact pieces_encodeChars text

end TagWire.Utf8
