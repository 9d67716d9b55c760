import TagWire.Word

/-!
# Errors

Whatever can go wrong while a layout is compiled or a message is carried over, with its wording, its
named details, and how it looks to a reader of a byte stream.
-/

namespace TagWire

/-- A problem of a grammar: where it is, the token at fault (empty where the grammar ended), what is wrong. -/
structure Issue where
  position : Nat
  token : String
  message : String
  deriving DecidableEq, Repr

def Issue.describe (issue : Issue) : String :=
  let place := "at " ++ toString issue.position
  let token := if issue.token = "" then "" else " ('" ++ issue.token ++ "')"
  place ++ token ++ ": " ++ issue.message

inductive Error where
  /-- A malformed layout grammar, with every problem in grammar order. -/
  | grammar (issues : List Issue)
  /-- A message that is not shaped as its layout expects. -/
  | mismatch (expected received origin : String)
  /-- A source that ended too early. -/
  | exhausted (context : String) (missing : Nat)
  /-- An element size on the wire that no conversion reaches. -/
  | unsupportedConversion (origin kind : String) (unit wire : Nat)
  /-- An image encoding that a derivation cannot translate. -/
  | unsupportedEncoding (encoding reason : String)
  /-- A property that a directive needs and nobody saved. -/
  | missingProperty (name context : String)
  /-- Malformed data. -/
  | parse (context message : String)
  /-- A bad entry of a registry. -/
  | config (entry message : String)
  /-- A failure of the byte source itself. -/
  | io (message : String)
  deriving DecidableEq, Repr

/-- How a failed read is classified by those who read the stream. -/
inductive FailureKind where
  | unexpectedEof
  | invalidData
  | other
  deriving DecidableEq, Repr

namespace Error

/-- A step that goes well does so in both of its parts. -/
theorem bind_ok {ε α β : Type} {x : Except ε α} {f : α → Except ε β} {b : β}
    (h : (x >>= f) = .ok b) : ∃ a, x = .ok a ∧ f a = .ok b := by
  cases x with
  | error e => cases h
  | ok a => exact ⟨a, rfl, h⟩

/-- Rewording a failure does not make one. -/
theorem mapError_ok {ε δ α : Type} {x : Except ε α} {f : ε → δ} {a : α}
    (h : x.mapError f = .ok a) : x = .ok a := by
  cases x with
  | error e => cases h
  | ok a => exact congrArg Except.ok (Except.ok.inj h)

/-- A mismatch of two tag words. -/
def tagMismatch (expected received : Word) (origin : String) : Error :=
  .mismatch expected.describe received.describe origin

def message : Error → String
  | grammar issues => "Grammar error: " ++ "; ".intercalate (issues.map Issue.describe)
  | mismatch expected received origin =>
    "Structure of message is unexpected in '" ++ origin ++ "': expected '" ++ expected ++ "', got '" ++
      received ++ "'"
  | exhausted context missing =>
    "Stream exhausted while reading " ++ context ++ ": " ++ toString missing ++ " more bytes needed"
  | unsupportedConversion origin kind unit wire =>
    "Unsupported conversion in '" ++ origin ++ "': " ++ kind ++ " of " ++ toString unit ++
      " bytes carried as " ++ toString wire ++ " bytes"
  | unsupportedEncoding encoding reason => "Unsupported encoding '" ++ encoding ++ "': " ++ reason
  | missingProperty name context => "Missing property '" ++ name ++ "' needed by " ++ context
  | parse context message => "Parse error in " ++ context ++ ": " ++ message
  | config entry message => "Configuration error in '" ++ entry ++ "': " ++ message
  | io message => "IO error: " ++ message

/-- The details of an error under their names. -/
def fields : Error → List (String × String)
  | grammar issues =>
    [("issues", toString issues.length), ("first", (issues.head?.map Issue.describe).getD "")]
  | mismatch expected received origin =>
    [("expected", expected), ("received", received), ("origin", origin)]
  | exhausted context missing => [("context", context), ("missing", toString missing)]
  | unsupportedConversion origin kind unit wire =>
    [("origin", origin), ("flavor", kind), ("unit_size", toString unit), ("wire_size", toString wire)]
  | unsupportedEncoding encoding reason => [("encoding", encoding), ("reason", reason)]
  | missingProperty name context => [("name", name), ("context", context)]
  | parse context message => [("context", context), ("message", message)]
  | config entry message => [("entry", entry), ("message", message)]
  | io message => [("message", message)]

/-- The issues of a grammar error. -/
def issues : Error → List Issue
  | grammar issues => issues
  | _ => []

/-- How the error is classified when it travels as a failed read. -/
def failureKind : Error → FailureKind
  | exhausted .. => .unexpectedEof
  | io _ => .other
  | _ => .invalidData

end Error

end TagWire
