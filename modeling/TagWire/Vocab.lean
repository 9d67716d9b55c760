import TagWire.Utf8
import TagWire.Word

/-!
# Vocabs

A vocab is a word of up to four characters, packed with the first character in the lowest byte.
-/

namespace TagWire.Vocab

/-- Packs the first four bytes of a text. -/
def pack (text : String) : Word :=
  Word.ofBytes ((Utf8.encode text).take 4)

/-- The Latin-1 characters of a vocab, up to its first zero byte. -/
def unpack (vocab : Word) : String :=
  String.ofList ((vocab.toBytes.takeWhile (· ≠ 0)).map fun b => Char.ofNat b.toNat)

end TagWire.Vocab
