import TagWire.Separator

/-!
# Tokens of a grammar

The tokens of a grammar are its longest runs without separators. Each token keeps the separators before
it, so the text of neighbouring tokens can be put together again without the grammar at hand.
-/

namespace TagWire.Layout

/-- What a token is, by its spelling. -/
inductive Lexeme where
  | separator
  | wildcard
  | length
  | save
  | load
  | keyword
  deriving DecidableEq, Repr

structure Token where
  /-- The separators between the token before and this one. -/
  before : String
  text : String
  /-- Where the token starts in the grammar, in bytes. -/
  start : Nat
  deriving DecidableEq, Repr

namespace Token

/-- A directive sign counts as one only with a name behind it. -/
def lexeme (t : Token) : Lexeme :=
  match t.text.toList with
  | ['-', '-', '-'] => .separator
  | ['*'] => .wildcard
  | '>' :: _ :: _ => .save
  | '<' :: _ :: _ => .load
  | text => if text ≠ [] ∧ text.all Char.isDigit then .length else .keyword

/-- Whether the token is this keyword. -/
def isWord (t : Token) (word : String) : Bool := t.lexeme = .keyword ∧ t.text = word

/-- The name behind a directive sign. -/
def name (t : Token) : String := String.ofList (t.text.toList.drop 1)

/-- Where the token ends in the grammar, in bytes. -/
def stop (t : Token) : Nat := t.start + t.text.utf8ByteSize

/-- Reads on with the separators and the characters of the token under way, last first, and the place
where that token starts. -/
def scanFrom (before text : List Char) (start : Nat) : List Char → List Token
  | [] =>
    if text = [] then []
    else [⟨String.ofList before.reverse, String.ofList text.reverse, start⟩]
  | c :: rest =>
    if isSeparator c then
      if text = [] then scanFrom (c :: before) [] (start + c.utf8Size) rest
      else
        let token : Token := ⟨String.ofList before.reverse, String.ofList text.reverse, start⟩
        token :: scanFrom [c] [] (token.stop + c.utf8Size) rest
    else scanFrom before (c :: text) start rest

/-- The tokens of a grammar. -/
def scan (grammar : String) : List Token := scanFrom [] [] 0 grammar.toList

/-- The text from the first token to the last. -/
def spell : List Token → String
  | [] => ""
  | first :: rest => rest.foldl (fun text t => text ++ t.before ++ t.text) first.text

/-- Where the last token ends. -/
def stopOf (tokens : List Token) : Nat := (tokens.getLast?.map stop).getD 0

/-- Divides tokens at the separator tokens; there is one section more than there are of them. -/
def sections : List Token → List (List Token)
  | [] => [[]]
  | t :: rest =>
    if t.lexeme = .separator then [] :: sections rest
    else
      match sections rest with
      | [] => [[t]]
      | first :: others => (t :: first) :: others

end Token

end TagWire.Layout
