import TagWire.Tagged.Encode

/-!
# Blocks

A serialized message is kept in blocks. The first of them are headers, which frame the message and are no
part of it; the boundaries of the others carry no meaning.
-/

namespace TagWire

/-- Header blocks and the payload blocks behind them. -/
structure BlockBuffer where
  headers : List Bytes
  body : List Bytes
  deriving DecidableEq, Repr

namespace BlockBuffer

/-- The first `headerCount` blocks are headers. -/
def ofBlocks (blocks : List Bytes) (headerCount : Nat) : BlockBuffer :=
  ⟨blocks.take headerCount, blocks.drop headerCount⟩

def blocks (buffer : BlockBuffer) : List Bytes := buffer.headers ++ buffer.body

def payload (buffer : BlockBuffer) : Bytes := buffer.body.flatten

end BlockBuffer

namespace Tagged

/-- Cuts bytes into blocks of a size, which counts as one if it is zero. The last block may be shorter. -/
def cut (size : Nat) : Bytes → List Bytes
  | [] => []
  | b :: rest => (b :: rest.take (size - 1)) :: cut size (rest.drop (size - 1))
termination_by bytes => bytes.length

/-- Messages that wait to be cut into blocks. -/
structure Outbox where
  headers : List Bytes := []
  payload : Bytes := []
  blockSize : Nat := 65536
  deriving DecidableEq, Repr

namespace Outbox

/-- Adds a header block. -/
def header (outbox : Outbox) (bytes : Bytes) : Outbox :=
  { outbox with headers := outbox.headers ++ [bytes] }

/-- Adds a message. -/
def write (outbox : Outbox) (v : Value) : Except Error Outbox := do
  let bytes ← encode v
  return { outbox with payload := outbox.payload ++ bytes }

def finish (outbox : Outbox) : BlockBuffer :=
  ⟨outbox.headers, cut outbox.blockSize outbox.payload⟩

end Outbox

end Tagged

end TagWire
