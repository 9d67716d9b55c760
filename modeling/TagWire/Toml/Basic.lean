/-!
# Tables of TOML

A document is a tree of tables and arrays with strings and other scalars at its leaves. How a table came
to be decides how it may be added to:

- a table under a header may be opened once,
- a table that only stands on the way to another may still be opened by a header,
- a table made by dotted keys may only be added to by dotted keys,
- an inline table may not be added to at all.
-/

namespace TagWire

/-- How a table came to be. -/
inductive Toml.Standing where
  | opened
  | implied
  | dotted
  | closed
  deriving DecidableEq, Repr

inductive Toml where
  | string (text : List Char)
  /-- A number, a truth value, a date or a time. -/
  | scalar
  | array (items : List Toml)
  | table (standing : Toml.Standing) (entries : List (List Char × Toml))
  deriving Repr, Inhabited

namespace Toml

abbrev Entries := List (List Char × Toml)

/-- Puts an entry in the place of the one with its key, or behind the others. -/
def replace (key : List Char) (node : Toml) : Entries → Entries
  | [] => [(key, node)]
  | (other, old) :: rest =>
    if other = key then (key, node) :: rest else (other, old) :: replace key node rest

/-- Adds a value under dotted keys. -/
def assign (node : Toml) : (path : List (List Char)) → Entries → Option Entries
  | [], _ => none
  | [key], entries =>
    match entries.lookup key with
    | none => some (entries ++ [(key, node)])
    | some _ => none
  | key :: path, entries =>
    match entries.lookup key with
    | none => (assign node path []).map fun inner => replace key (.table .dotted inner) entries
    | some (.table .dotted inner) =>
      (assign node path inner).map fun inner => replace key (.table .dotted inner) entries
    | some (.table .implied inner) =>
      if path.length ≤ 1 then none
      else (assign node path inner).map fun inner => replace key (.table .implied inner) entries
    | some _ => none

/-- Opens the table under a header and changes its entries. -/
def openTable (change : Entries → Option Entries) : (path : List (List Char)) → Entries → Option Entries
  | [], entries => change entries
  | [key], entries =>
    match entries.lookup key with
    | none => (change []).map fun inner => replace key (.table .opened inner) entries
    | some (.table .implied inner) =>
      (change inner).map fun inner => replace key (.table .opened inner) entries
    | some _ => none
  | key :: path, entries =>
    match entries.lookup key with
    | none => (openTable change path []).map fun inner => replace key (.table .implied inner) entries
    | some (.table .closed _) => none
    | some (.table standing inner) =>
      (openTable change path inner).map fun inner => replace key (.table standing inner) entries
    | some _ => none

end Toml

end TagWire
