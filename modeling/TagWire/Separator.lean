/-!
# Separators

Grammars and value text divide their words by the same characters.
-/

namespace TagWire

/-- Blanks, line ends and commas separate words and mean nothing else. -/
def isSeparator (c : Char) : Bool := c ∈ [' ', '\t', '\r', '\n', ',']

end TagWire
