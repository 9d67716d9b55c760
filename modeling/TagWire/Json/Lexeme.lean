import TagWire.Hex

/-!
# Lexemes of JSON

JSON falls into punctuation, strings and runs of other characters. The text is read by a machine that goes
character by character; what a run means and what a string spells is settled afterwards.
-/

namespace TagWire.Json

inductive Lexeme where
  /-- One of the characters `[`, `]`, `,`, `:` and the two braces. -/
  | mark (c : Char)
  | string (raw : List Char)
  | run (text : List Char)
  deriving DecidableEq, Repr

namespace Lexeme

def isBlank (c : Char) : Bool := c ∈ [' ', '\n', '\t', '\r']

def isMark (c : Char) : Bool := c ∈ ['[', ']', ',', ':', '\x7b', '\x7d']

/-- What has been read of the lexeme under way, last character first. -/
inductive State where
  | between
  | inString (raw : List Char)
  /-- Behind a backslash in a string. -/
  | escaped (raw : List Char)
  | inRun (text : List Char)
  deriving DecidableEq, Repr

/-- The character starts a lexeme, or is one, or separates two. -/
def start (c : Char) : State × List Lexeme :=
  if isBlank c then (.between, [])
  else if isMark c then (.between, [.mark c])
  else if c = '"' then (.inString [], [])
  else (.inRun [c], [])

/-- The state behind the next character, and the lexemes that it completes. -/
def step (c : Char) : State → State × List Lexeme
  | .between => start c
  | .inString raw =>
    if c = '"' then (.between, [.string raw.reverse])
    else if c = '\\' then (.escaped (c :: raw), [])
    else (.inString (c :: raw), [])
  | .escaped raw => (.inString (c :: raw), [])
  | .inRun text =>
    if isBlank c ∨ isMark c ∨ c = '"' then
      let (state, lexemes) := start c
      (state, .run text.reverse :: lexemes)
    else (.inRun (c :: text), [])

/-- The end of the text ends a run; a string has to be closed. -/
def finish : State → Option (List Lexeme)
  | .between => some []
  | .inString _ | .escaped _ => none
  | .inRun text => some [.run text.reverse]

def lexFrom (state : State) : List Char → Option (List Lexeme)
  | [] => finish state
  | c :: rest =>
    let (state, lexemes) := step c state
    (lexFrom state rest).map (lexemes ++ ·)

/-- The lexemes of a text, none where a string is not closed. -/
def lex (text : List Char) : Option (List Lexeme) := lexFrom .between text

end Lexeme

/-- The character that a letter stands for behind a backslash. -/
def unescapeLetter? (c : Char) : Option Char :=
  if c = '"' ∨ c = '\\' ∨ c = '/' then some c
  else if c = 'b' then some '\x08'
  else if c = 'f' then some '\x0c'
  else if c = 'n' then some '\n'
  else if c = 'r' then some '\r'
  else if c = 't' then some '\t'
  else none

/-- The number that four hexadecimal digits spell. -/
def unit? (a b c d : Char) : Option Nat := do
  let a ← Hex.digit? a
  let b ← Hex.digit? b
  let c ← Hex.digit? c
  let d ← Hex.digit? d
  return 4096 * a + 256 * b + 16 * c + d

def isHighUnit (n : Nat) : Bool := 0xd800 ≤ n && n < 0xdc00

def isLowUnit (n : Nat) : Bool := 0xdc00 ≤ n && n < 0xe000

/-- The characters that a text between quotes spells. Control characters have to be escaped, and
surrogates have to come in pairs. -/
def unescape? : List Char → Option (List Char)
  | '\\' :: 'u' :: a :: b :: c :: d :: rest => do
    let n ← unit? a b c d
    if isLowUnit n then none
    else if isHighUnit n then
      match rest with
      | '\\' :: 'u' :: a' :: b' :: c' :: d' :: rest => do
        let n' ← unit? a' b' c' d'
        if isLowUnit n' then
          (unescape? rest).map (Char.ofNat (0x10000 + 1024 * (n - 0xd800) + (n' - 0xdc00)) :: ·)
        else none
      | _ => none
    else (unescape? rest).map (Char.ofNat n :: ·)
  | '\\' :: c :: rest => do
    let c ← unescapeLetter? c
    (unescape? rest).map (c :: ·)
  | c :: rest => if c.toNat < 0x20 then none else (unescape? rest).map (c :: ·)
  | [] => some []

end TagWire.Json
