import TagWire.Json.Lexeme
import TagWire.Json.Number

/-!
# JSON, read

Lexemes are gathered into a tree with the arrays and objects that are open around them. A text holds one
tree, and brackets nest at most 127 deep.
-/

namespace TagWire.Json

/-- An array or object that is open: what it holds so far, last first. -/
inductive Frame where
  | array (items : List Json)
  /-- The key is that of the entry under way. -/
  | object (entries : List (List Char × Json)) (key : List Char)
  deriving Repr

/-- What may come next. -/
inductive Expect where
  | value
  /-- Behind an opening bracket: a value or its end. -/
  | valueOrEnd
  /-- Behind an opening brace: a key or its end. -/
  | keyOrEnd
  | key
  | colon
  /-- Behind a value: a comma or the end of what holds it. -/
  | commaOrEnd
  deriving DecidableEq, Repr

/-- A tree under way: the frames around the place reached, innermost first, and the tree when complete. -/
structure Builder where
  frames : List Frame := []
  expect : Expect := .value
  result : Option Json := none
  deriving Repr

/-- Brackets nest at most this deep. -/
def maxDepth : Nat := 127

namespace Builder

/-- Puts a value where one is expected. -/
def put (b : Builder) (j : Json) : Option Builder :=
  if b.expect = .value ∨ b.expect = .valueOrEnd then
    match b.frames with
    | [] => some { b with expect := .commaOrEnd, result := some j }
    | .array items :: rest => some { b with frames := .array (j :: items) :: rest, expect := .commaOrEnd }
    | .object entries key :: rest =>
      some { b with frames := .object ((key, j) :: entries) [] :: rest, expect := .commaOrEnd }
  else none

/-- Opens an array or an object where a value is expected. -/
def open? (b : Builder) (frame : Frame) (expect : Expect) : Option Builder :=
  if (b.expect = .value ∨ b.expect = .valueOrEnd) ∧ b.frames.length < maxDepth then
    some { b with frames := frame :: b.frames, expect }
  else none

/-- Closes the innermost frame. -/
def close? (b : Builder) (bracket : Char) : Option Builder :=
  match b.frames with
  | .array items :: rest =>
    if bracket = ']' ∧ (b.expect = .commaOrEnd ∨ b.expect = .valueOrEnd) then
      put { b with frames := rest, expect := .value } (.array items.reverse)
    else none
  | .object entries _ :: rest =>
    if bracket = '\x7d' ∧ (b.expect = .commaOrEnd ∨ b.expect = .keyOrEnd) then
      put { b with frames := rest, expect := .value } (.object entries.reverse)
    else none
  | [] => none

/-- Goes on behind a comma. -/
def comma? (b : Builder) : Option Builder :=
  if b.expect = .commaOrEnd then
    match b.frames with
    | .array _ :: _ => some { b with expect := .value }
    | .object .. :: _ => some { b with expect := .key }
    | [] => none
  else none

def mark? (b : Builder) (c : Char) : Option Builder :=
  if c = '[' then b.open? (.array []) .valueOrEnd
  else if c = '\x7b' then b.open? (.object [] []) .keyOrEnd
  else if c = ',' then b.comma?
  else if c = ':' then if b.expect = .colon then some { b with expect := .value } else none
  else b.close? c

/-- A string is a key where one is expected, and a value otherwise. -/
def string? (b : Builder) (chars : List Char) : Option Builder :=
  if b.expect = .key ∨ b.expect = .keyOrEnd then
    match b.frames with
    | .object entries _ :: rest => some { b with frames := .object entries chars :: rest, expect := .colon }
    | _ => none
  else b.put (.string chars)

def run? (b : Builder) (text : List Char) : Option Builder :=
  if text = "null".toList then b.put .null
  else if text = "true".toList then b.put (.bool true)
  else if text = "false".toList then b.put (.bool false)
  else (number? text).bind b.put

def step? (b : Builder) : Lexeme → Option Builder
  | .mark c => b.mark? c
  | .string raw => (unescape? raw).bind b.string?
  | .run text => b.run? text

def run : Builder → List Lexeme → Option Builder
  | b, [] => some b
  | b, l :: rest => (b.step? l).bind (run · rest)

end Builder

/-- The tree that a text holds. -/
def parse? (text : List Char) : Option Json := do
  let lexemes ← Lexeme.lex text
  let builder ← Builder.run {} lexemes
  if builder.frames.isEmpty then builder.result else none

end TagWire.Json
