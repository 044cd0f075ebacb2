import ShellLine.Number.Binary64
import ShellLine.Text.Basic

/-! # TOML values and tables

A TOML text builds a tree of tables step by step. How a table came to be decides
what may still be added to it: a table with a header of its own is extended by the
lines below the header only, one that merely lies on the way to another may still
get its header, and one made by dotted keys grows by dotted keys. An inline table
is complete at once. -/

namespace ShellLine

/-- How a table came to be. -/
inductive TableForm
  /-- It has a header of its own, or is the root. -/
  | header
  /-- It lies on the way to a table with a header. -/
  | parent
  /-- It lies on the way of a dotted key. -/
  | dotted
  /-- It stands between braces. -/
  | inline
  deriving DecidableEq, Repr

/-- A TOML value. -/
inductive Toml
  | bool (b : Bool)
  | int (n : Int64)
  | float (x : Binary64)
  | string (s : Text)
  /-- A date, a time of day, or both, in its common form. -/
  | datetime (s : Text)
  | array (items : List Toml)
  | table (form : TableForm) (entries : List (Text × Toml))
  /-- Tables with headers in double brackets. -/
  | tables (items : List (List (Text × Toml)))
  deriving Repr

namespace Toml

/-- The entries of a table. -/
abbrev Entries := List (Text × Toml)

def find? (entries : Entries) (key : Text) : Option Toml := entries.lookup key

/-- Gives another value to a key that has one. -/
def replace (key : Text) (v : Toml) (entries : Entries) : Entries :=
  entries.map fun e => if e.1 = key then (e.1, v) else e

namespace TableForm

/-- Whether a dotted key may lead into a table of this form. -/
def admitsDotted : TableForm → Bool
  | .parent => true
  | .dotted => true
  | .header => false
  | .inline => false

end TableForm

/-! ### Changing a table deep within another -/

/-- A change of the entries of a table of some form; not every change is possible. -/
abbrev Change := TableForm → Entries → Option Entries

/-- Changes the table at the end of a path. Missing tables on the way are made, of the form
`made`; the path leads into the last of several tables, and never into an inline table. A path of
dotted keys keeps away from tables with headers. -/
def changeAt (made : TableForm) (change : Change) : List Text → Change
  | [], form, entries => change form entries
  | key :: path, _, entries =>
    match find? entries key with
    | none => do
      let inner ← changeAt made change path made []
      return entries ++ [(key, table made inner)]
    | some (table form inner) =>
      if form = .inline ∨ (made = .dotted ∧ ¬TableForm.admitsDotted form) then none
      else do
        let inner ← changeAt made change path form inner
        return replace key (table form inner) entries
    | some (tables items) =>
      match items.getLast? with
      | none => none
      | some last => do
        let last ← changeAt made change path .header last
        return replace key (tables (items.dropLast ++ [last])) entries
    | some _ => none

/-- Adds an entry under a dotted key, given as the path to its table and the last part. The table
must be reached by dotted keys alone, or be the one at hand, and the key must be new. -/
def addEntry (path : List Text) (key : Text) (v : Toml) : Change :=
  changeAt .dotted
    (fun form entries =>
      if (form = .dotted ↔ path = []) ∨ (find? entries key).isSome then none
      else some (entries ++ [(key, v)]))
    path

/-- Starts the table with a header, given as the path to its parent and the last part. The table
must be new, or have lain on the way to another table only. -/
def startTable (path : List Text) (key : Text) : Change :=
  changeAt .parent
    (fun _ entries =>
      match find? entries key with
      | none => some (entries ++ [(key, table .header [])])
      | some (table .parent inner) => some (replace key (table .header inner) entries)
      | some _ => none)
    path

def startTables (path : List Text) (key : Text) : Change :=
  changeAt .parent
    (fun _ entries =>
      match find? entries key with
      | none => some (entries ++ [(key, tables [[]])])
      | some (tables items) => some (replace key (tables (items ++ [[]])) entries)
      | some _ => none)
    path

/-! ### Documents in part -/

/-- A document up to some line: all entries, and the path of the table that was started last. -/
structure Draft where
  entries : Entries
  current : List Text
  deriving Repr

namespace Draft

/-- The draft with one more entry in the current table. -/
def add (d : Draft) (path : List Text) (key : Text) (v : Toml) : Option Draft :=
  (changeAt .parent (addEntry path key v) d.current .header d.entries).map fun entries =>
    { d with entries }

def start (d : Draft) (change : List Text → Text → Change) (path : List Text) (key : Text) :
    Option Draft :=
  (change path key .header d.entries).map fun entries => ⟨entries, path ++ [key]⟩

end Draft

end Toml

end ShellLine
