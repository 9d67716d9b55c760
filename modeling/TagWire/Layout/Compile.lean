import TagWire.Layout.Parse

/-!
# Compiling grammars

A grammar is divided into sections, such as a request and its reply, and each gives a layout. The faults
of all sections are reported together.
-/

namespace TagWire.Layout

/-- The tag words in front of a section that is a list of its own. Its count is the greatest one where it
does not fit a word. -/
def wrapping (tokens : List Token) (fields : List Field) : List Word :=
  if isWrapped tokens then [Word.ofList none, Word.ofTag (min (fields.countP Field.isVisible) 0x7fffffff)] else []

/-- The layout of fields read from a section. -/
def ofFields (tokens : List Token) (fields : List Field) : Layout :=
  ⟨Field.layOut (wrapping tokens fields) fields, Token.spell tokens⟩

/-- The layouts of all sections of a grammar. -/
def compileSections (grammar : String) : Except Error (List Layout) :=
  let sections := Token.sections (Token.scan grammar)
  let read := sections.map fun tokens => (tokens, readFields tokens)
  match Finding.error? (read.flatMap fun (_, _, findings) => findings) with
  | some error => .error error
  | none => .ok (read.map fun (tokens, fields, _) => ofFields tokens fields)

/-- The layout of the first section of a grammar; the others have to be sound too. -/
def compile (grammar : String) : Except Error Layout := do
  match ← compileSections grammar with
  | first :: _ => return first
  | [] => return ⟨[], ""⟩

end TagWire.Layout
