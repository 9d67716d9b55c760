import TagWire.Toml.Basic
import TagWire.Toml.Scalar
import TagWire.Toml.Text

/-!
# TOML, read

A document is a list of lines: headers, which open a table, and entries of the table that is open. A
value can be of any kind. Arrays of tables are refused, for no file that is of use here has them.
-/

namespace TagWire.Toml

abbrev Path := List (List Char)

/-- A simple key: a bare word, or a string on one line. -/
def key? (text : List Char) : Option (List Char × List Char) :=
  match Text.single? text with
  | some read => some read
  | none =>
    match text.takeWhile Text.isBare with
    | [] => none
    | word => some (word, text.dropWhile Text.isBare)

/-- Keys with points between them, and what follows. Each takes a character, so `fuel` need only reach the
length of the text. -/
def path? : (fuel : Nat) → List Char → Option (Path × List Char)
  | 0, _ => none
  | fuel + 1, text => do
    let (key, rest) ← key? text
    match rest.dropWhile Text.isBlank with
    | '.' :: rest => do
      let (path, rest) ← path? fuel (rest.dropWhile Text.isBlank)
      return (key :: path, rest)
    | rest => return ([key], rest)

/-- Drops blanks, line ends and comments, which mean nothing in an array. -/
def skipGaps : (inComment : Bool) → List Char → List Char
  | _, '\n' :: rest => skipGaps false rest
  | _, '\r' :: '\n' :: rest => skipGaps false rest
  | true, c :: rest => if Text.isControl c then c :: rest else skipGaps true rest
  | false, '#' :: rest => skipGaps true rest
  | false, c :: rest => if Text.isBlank c then skipGaps false rest else c :: rest
  | _, [] => []

mutual

/-- A value and what follows. At each character there are at most two steps, and `fuel` need only reach
their number. -/
def value? : (fuel : Nat) → List Char → Option (Toml × List Char)
  | 0, _ => none
  | fuel + 1, '[' :: rest => do
    let (items, rest) ← items? fuel (skipGaps false rest)
    return (.array items, rest)
  | fuel + 1, '\x7b' :: rest =>
    match rest.dropWhile Text.isBlank with
    | '\x7d' :: rest => some (.table .closed [], rest)
    | rest => do
      let (entries, rest) ← inlineEntries? fuel [] rest
      return (.table .closed entries, rest)
  | _ + 1, text =>
    match Text.any? text with
    | some (text, rest) => some (.string text, rest)
    | none => (Scalar.skip? text).map fun rest => (.scalar, rest)

/-- The items of an array up to its closing bracket, and what follows. -/
def items? : (fuel : Nat) → List Char → Option (List Toml × List Char)
  | 0, _ => none
  | _ + 1, ']' :: rest => some ([], rest)
  | fuel + 1, text => do
    let (item, rest) ← value? fuel text
    match skipGaps false rest with
    | ',' :: rest => do
      let (items, rest) ← items? fuel (skipGaps false rest)
      return (item :: items, rest)
    | ']' :: rest => return ([item], rest)
    | _ => none

/-- The entries of an inline table up to its closing brace, and what follows. -/
def inlineEntries? : (fuel : Nat) → Entries → List Char → Option (Entries × List Char)
  | 0, _, _ => none
  | fuel + 1, entries, text => do
    let (path, rest) ← path? text.length text
    match rest with
    | '=' :: rest => do
      let (node, rest) ← value? fuel (rest.dropWhile Text.isBlank)
      let entries ← assign node path entries
      match rest.dropWhile Text.isBlank with
      | ',' :: rest => inlineEntries? fuel entries (rest.dropWhile Text.isBlank)
      | '\x7d' :: rest => some (entries, rest)
      | _ => none
    | _ => none

end

/-- A line of a document. -/
inductive Line where
  | blank
  | header (path : Path)
  | entry (path : Path) (node : Toml)
  deriving Repr

/-- What follows the end of a line, in front of which blanks and a comment may stand. -/
def endLine? (text : List Char) : Option (List Char) :=
  let rest := match text.dropWhile Text.isBlank with
    | '#' :: rest => rest.dropWhile fun c => !Text.isControl c
    | rest => rest
  match rest with
  | [] => some []
  | '\n' :: rest => some rest
  | '\r' :: '\n' :: rest => some rest
  | _ => none

/-- A line and what follows it. -/
def line? (text : List Char) : Option (Line × List Char) :=
  match endLine? text with
  | some rest => some (.blank, rest)
  | none =>
    match text.dropWhile Text.isBlank with
    | '[' :: rest => do
      let (path, rest) ← path? rest.length (rest.dropWhile Text.isBlank)
      match rest with
      | ']' :: rest => return (.header path, ← endLine? rest)
      | _ => none
    | rest => do
      let (path, rest) ← path? rest.length rest
      match rest with
      | '=' :: rest => do
        let (node, rest) ← value? (2 * rest.length + 1) (rest.dropWhile Text.isBlank)
        return (.entry path node, ← endLine? rest)
      | _ => none

/-- Divides a text into lines. Each takes a character, so `fuel` need only reach the length of the text. -/
def lines? : (fuel : Nat) → List Char → Option (List Line)
  | _, [] => some []
  | 0, _ :: _ => none
  | fuel + 1, text => do
    let (line, rest) ← line? text
    let others ← lines? fuel rest
    return line :: others

/-- The table that is open, and the entries for it. -/
structure Block where
  path : Path := []
  entries : List (Path × Toml) := []
  deriving Repr

/-- Adds the entries of a block to a document. -/
def Block.addTo (block : Block) (document : Entries) : Option Entries :=
  openTable (fun table => block.entries.foldlM (fun table (path, node) => assign node path table) table)
    block.path document

/-- Builds a document from its lines, with the block that is open. -/
def build (document : Entries) (block : Block) : List Line → Option Entries
  | [] => block.addTo document
  | .blank :: rest => build document block rest
  | .entry path node :: rest => build document { block with entries := block.entries ++ [(path, node)] } rest
  | .header path :: rest => do
    let document ← block.addTo document
    build document { path } rest

/-- The document that a text holds. A byte order mark may stand in front of it. -/
def parse? (text : List Char) : Option Entries := do
  let text := match text with
    | '\uFEFF' :: rest => rest
    | text => text
  let lines ← lines? text.length text
  build [] {} lines

end TagWire.Toml
