import TagWire.Dictionary
import TagWire.File
import TagWire.Layout.Compile
import TagWire.Toml.Parse

/-!
# Registries of layouts

Layouts under names. An entry is a grammar of one section, or of two for a request and its reply, and may
carry a description. All grammars are compiled when the registry is made.

- `Registry.insert`: adds an entry, or reports it and changes nothing.
- `Registry.ofText`: the registry that a text describes.
-/

namespace TagWire

/-- An entry as it is declared. -/
structure Registry.Declaration where
  grammar : String
  description : Option String := none
  deriving DecidableEq, Repr

/-- A compiled entry. -/
structure Registry.Entry where
  name : String
  description : Option String
  request : Layout
  reply : Option Layout
  deriving DecidableEq, Repr

structure Registry where
  entries : Dictionary Registry.Entry
  deriving DecidableEq, Repr

namespace Registry

def empty : Registry := ⟨.empty⟩

def size (r : Registry) : Nat := r.entries.size

def names (r : Registry) : List String := r.entries.keys

def get? (r : Registry) (name : String) : Option Entry := r.entries.get? name

/-- The layout of an entry's requests. -/
def request? (r : Registry) (name : String) : Option Layout := (r.get? name).map Entry.request

/-- The layout of an entry's replies. -/
def reply? (r : Registry) (name : String) : Option Layout := (r.get? name).bind Entry.reply

/-- Compiles an entry and adds it, in the place of one of the same name. Errors name the entry, and come
with the registry that is there afterwards. -/
def insert (r : Registry) (name : String) (declaration : Declaration) : Except Error Unit × Registry :=
  match Layout.compileSections declaration.grammar with
  | .error e => (.error (.config name e.message), r)
  | .ok sections =>
    if 2 < sections.length then
      let message := "expected at most 2 grammar sections, found " ++ toString sections.length
      (.error (.config name message), r)
    else
      match sections with
      | [] => (.error (.config name "empty grammar"), r)
      | request :: others =>
        let entry := ⟨name, declaration.description, request, others.head?⟩
        (.ok (), ⟨r.entries.insert name entry⟩)

/-- Adds entries one after the other, up to the first that fails. -/
def insertAll (r : Registry) : List (String × Declaration) → Except Error Unit × Registry
  | [] => (.ok (), r)
  | (name, declaration) :: rest =>
    match r.insert name declaration with
    | (.ok (), r) => r.insertAll rest
    | (.error e, r) => (.error e, r)

/-- The registry behind changes that succeeded. -/
def changed : Except Error Unit × Registry → Except Error Registry
  | (.ok (), r) => .ok r
  | (.error e, _) => .error e

instance : Coe (Except Error Unit × Registry) (Except Error Registry) := ⟨changed⟩

/-- What a file declares, by the names of the entries. -/
abbrev File := Dictionary Declaration

/-- The registry that a text describes, with `parse` for what the text declares. Entries are added in the
order of their names. -/
def ofText (parse : String → Except String File) (text : String) : Except Error Registry :=
  match parse text with
  | .error message => .error (.config "registry" message)
  | .ok file => empty.insertAll file.entries

/-- What is wrong with the text of a file. -/
inductive Fault where
  | noToml
  | notARegistry
  deriving DecidableEq, Repr

def Fault.message : Fault → String
  | noToml => "TOML parse error: the text is not TOML, or has arrays of tables"
  | notARegistry => "TOML parse error: expected layouts with a grammar and perhaps a description"

def text? : Toml → Option String
  | .string text => some (String.ofList text)
  | _ => none

/-- A grammar, and perhaps a description. -/
def declare? (grammar : Toml) (description : Option Toml) : Option Declaration := do
  let grammar ← text? grammar
  let description ← description.mapM text?
  return { grammar, description }

/-- A declaration. In a table its parts stand under their names, with nothing else; an array begins with
them, whatever follows. -/
def declaration? : Toml → Option Declaration
  | .table _ entries => do
    let grammar ← entries.lookup "grammar".toList
    if entries.all fun (key, _) => key ∈ ["grammar".toList, "description".toList] then
      declare? grammar (entries.lookup "description".toList)
    else none
  | .array (grammar :: rest) => declare? grammar rest.head?
  | _ => none

/-- The declarations of a document: those in its table of layouts, and nothing else. -/
def declarations? : Toml.Entries → Option (List (String × Declaration))
  | [] => some []
  | [(key, .table _ entries)] =>
    if key = "layouts".toList then
      entries.mapM fun (name, node) => (declaration? node).map fun d => (String.ofList name, d)
    else none
  | _ => none

/-- What a file of TOML declares. -/
def parseToml (text : String) : Except String File :=
  match Toml.parse? text.toList with
  | none => .error Fault.noToml.message
  | some document =>
    match declarations? document with
    | none => .error Fault.notARegistry.message
    | some named => .ok (.ofList named)

/-- The registry that a file of TOML describes. -/
def ofToml (text : String) : Except Error Registry := ofText parseToml text

/-- The registry of a file that has been read, or could not be. -/
def load (path : String) (text : Except FileFault String) : Except Error Registry :=
  match text with
  | .error fault => .error (.config path fault.message)
  | .ok text => ofToml text

end Registry

end TagWire
