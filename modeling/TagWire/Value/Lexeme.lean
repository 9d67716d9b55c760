import TagWire.Separator

/-!
# Lexemes of value text

Value text falls into parentheses, bracketed vocabs, braced blobs, quoted strings, and runs of other
characters. Blanks and commas separate runs and mean nothing else.

The text is read by a machine that goes character by character, so what a text means does not depend on
what follows a separator.
-/

namespace TagWire.Value

/-- A smallest part of value text. -/
inductive Lexeme where
  | opening
  | closing
  | vocab (text : List Char)
  | blob (digits : List Char)
  | quoted (raw : List Char)
  | run (text : List Char)
  deriving DecidableEq, Repr

/-- How value text can be malformed. -/
inductive Malformed where
  | openVocab
  | openBlob
  | badBlob
  | openString
  | openList
  | strayClosing
  deriving DecidableEq, Repr

def Malformed.message : Malformed → String
  | .openVocab => " --> a vocab is not closed"
  | .openBlob => " --> a blob is not closed"
  | .badBlob => " --> a blob holds hexadecimal digits only"
  | .openString => " --> a string is not closed"
  | .openList => " --> a list is not closed"
  | .strayClosing => " --> a parenthesis closes no list"

/-- Whether a run ends before the character. -/
def isDelimiter (c : Char) : Bool := isSeparator c || c ∈ ['(', ')', '"', '[', '\x7b']

def isHexDigit (c : Char) : Bool :=
  c.isDigit || ('a' ≤ c && c ≤ 'f') || ('A' ≤ c && c ≤ 'F')

namespace Lexeme

/-- What has been read of the lexeme under way, last character first. -/
inductive State where
  | between
  | inVocab (text : List Char)
  | inBlob (digits : List Char)
  | inString (raw : List Char)
  /-- Behind a backslash in a string. -/
  | escaped (raw : List Char)
  | inRun (text : List Char)
  deriving DecidableEq, Repr

/-- The character starts a lexeme, or is one, or separates two. -/
def start (c : Char) : State × List Lexeme :=
  if isSeparator c then (.between, [])
  else if c = '(' then (.between, [.opening])
  else if c = ')' then (.between, [.closing])
  else if c = '[' then (.inVocab [], [])
  else if c = '\x7b' then (.inBlob [], [])
  else if c = '"' then (.inString [], [])
  else (.inRun [c], [])

/-- The state behind the next character, and the lexemes that it completes. -/
def step (c : Char) : State → Except Malformed (State × List Lexeme)
  | .between => .ok (start c)
  | .inVocab text => .ok (if c = ']' then (.between, [.vocab text.reverse]) else (.inVocab (c :: text), []))
  | .inBlob digits =>
    if c = '\x7d' then .ok (.between, [.blob digits.reverse])
    else if isHexDigit c then .ok (.inBlob (c :: digits), [])
    else .error .badBlob
  | .inString raw =>
    if c = '"' then .ok (.between, [.quoted raw.reverse])
    else if c = '\\' then .ok (.escaped (c :: raw), [])
    else .ok (.inString (c :: raw), [])
  | .escaped raw => .ok (.inString (c :: raw), [])
  | .inRun text =>
    if isDelimiter c then
      let (state, lexemes) := start c
      .ok (state, .run text.reverse :: lexemes)
    else .ok (.inRun (c :: text), [])

/-- The end of the text ends a run and nothing else. -/
def finish : State → Except Malformed (List Lexeme)
  | .between => .ok []
  | .inVocab _ => .error .openVocab
  | .inBlob _ => .error .openBlob
  | .inString _ | .escaped _ => .error .openString
  | .inRun text => .ok [.run text.reverse]

def lexFrom (state : State) : List Char → Except Malformed (List Lexeme)
  | [] => finish state
  | c :: rest => do
    let (state, lexemes) ← step c state
    let others ← lexFrom state rest
    return lexemes ++ others

/-- The lexemes of a text. -/
def lex (text : List Char) : Except Malformed (List Lexeme) := lexFrom .between text

/-- Checks that parentheses close what is open, `depth` lists deep. -/
def checkNesting : (depth : Nat) → List Lexeme → Except Malformed Unit
  | 0, [] => .ok ()
  | _ + 1, [] => .error .openList
  | depth, .opening :: rest => checkNesting (depth + 1) rest
  | 0, .closing :: _ => .error .strayClosing
  | depth + 1, .closing :: rest => checkNesting depth rest
  | depth, _ :: rest => checkNesting depth rest

end Lexeme

end TagWire.Value
