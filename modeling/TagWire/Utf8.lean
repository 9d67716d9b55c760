import TagWire.Bytes

/-!
# UTF-8

Reading goes byte by byte. A byte string falls into characters and faulty pieces, and a faulty piece is
as long as it can be while some character still begins with it.

- `Utf8.encode`: the bytes of a text.
- `Utf8.pieces`: the characters and the faulty pieces of a byte string.
- `Utf8.decode?`: the text of a byte string without faulty pieces.
- `Utf8.decodeLossy`: the text with one U+FFFD for each faulty piece.
-/

namespace TagWire.Utf8

def encodeChars (text : List Char) : Bytes :=
  text.flatMap String.utf8EncodeChar

/-- The bytes of a text. -/
def encode (text : String) : Bytes :=
  encodeChars text.toList

/-- A character that has begun: the bytes seen, the bits they gave, how many bytes are owed, and the
range of the next one. -/
structure Begun where
  seen : Bytes
  bits : Nat
  owed : Nat
  low : Nat
  high : Nat
  deriving DecidableEq, Repr

/-- A piece of a byte string. -/
inductive Piece where
  | char (c : Char)
  | faulty (bytes : Bytes)
  deriving DecidableEq, Repr

/-- What the first byte of a character starts. -/
def begin (b : UInt8) : Piece ⊕ Begun :=
  let n := b.toNat
  if n < 0x80 then .inl (.char (Char.ofNat n))
  else if n < 0xc2 then .inl (.faulty [b])
  else if n < 0xe0 then .inr ⟨[b], n - 0xc0, 1, 0x80, 0xbf⟩
  else if n = 0xe0 then .inr ⟨[b], 0, 2, 0xa0, 0xbf⟩
  else if n = 0xed then .inr ⟨[b], 0xd, 2, 0x80, 0x9f⟩
  else if n < 0xf0 then .inr ⟨[b], n - 0xe0, 2, 0x80, 0xbf⟩
  else if n = 0xf0 then .inr ⟨[b], 0, 3, 0x90, 0xbf⟩
  else if n < 0xf4 then .inr ⟨[b], n - 0xf0, 3, 0x80, 0xbf⟩
  else if n = 0xf4 then .inr ⟨[b], 4, 3, 0x80, 0x8f⟩
  else .inl (.faulty [b])

/-- The next byte of a character, none where the character cannot go on with it. -/
def Begun.next (s : Begun) (b : UInt8) : Option (Piece ⊕ Begun) :=
  let n := b.toNat
  if s.low ≤ n ∧ n ≤ s.high then
    let bits := 64 * s.bits + (n - 0x80)
    if s.owed ≤ 1 then some (.inl (.char (Char.ofNat bits)))
    else some (.inr ⟨s.seen ++ [b], bits, s.owed - 1, 0x80, 0xbf⟩)
  else none

def piecesFrom : Option Begun → Bytes → List Piece
  | none, [] => []
  | some s, [] => [.faulty s.seen]
  | none, b :: rest =>
    match begin b with
    | .inl piece => piece :: piecesFrom none rest
    | .inr s => piecesFrom (some s) rest
  | some s, b :: rest =>
    match s.next b with
    | some (.inl piece) => piece :: piecesFrom none rest
    | some (.inr s) => piecesFrom (some s) rest
    | none =>
      .faulty s.seen ::
        match begin b with
        | .inl piece => piece :: piecesFrom none rest
        | .inr s => piecesFrom (some s) rest

/-- The characters and the faulty pieces of a byte string, in order. -/
def pieces (bytes : Bytes) : List Piece :=
  piecesFrom none bytes

def Piece.char? : Piece → Option Char
  | .char c => some c
  | .faulty _ => none

/-- The characters of a byte string, none if some piece is faulty. -/
def chars? (bytes : Bytes) : Option (List Char) :=
  (pieces bytes).mapM Piece.char?

/-- The text of a byte string, none if some piece is faulty. -/
def decode? (bytes : Bytes) : Option String :=
  (chars? bytes).map String.ofList

/-- The text of a byte string, with U+FFFD for each faulty piece. -/
def decodeLossy (bytes : Bytes) : String :=
  String.ofList ((pieces bytes).map fun piece => piece.char?.getD '\uFFFD')

end TagWire.Utf8
