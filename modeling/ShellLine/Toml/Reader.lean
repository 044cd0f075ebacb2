import ShellLine.Toml.Scalar
import ShellLine.Toml.Strings

/-! # Reading TOML

A document is read line by line. A line is empty, starts a table, or adds an entry
to the table that was started last; values may go over several lines. -/

namespace ShellLine.Toml

/-! ### Values -/

def isCommentChar (c : Char) : Bool := !isControl c

/-- The text without white space, newlines and comments in front. The flag says whether a comment
goes on. -/
def skipIgnored : Bool → Text → Text
  | _, [] => []
  | inComment, c :: s =>
    if inComment && isCommentChar c then skipIgnored true s
    else if isBlank c || c == '\n' || (c == '\r' && s.head? == some '\n') then skipIgnored false s
    else if c == '#' then skipIgnored true s
    else c :: s

def readWord (word : Text) (v : Toml) (s : Text) : Option (Toml × Text) :=
  if word.isPrefixOf s then some (v, s.drop word.length) else none

/-- Reads a value that is neither an array nor a table. -/
def readScalar (s : Text) : Option (Toml × Text) :=
  match s with
  | [] => none
  | c :: _ =>
    if c = '"' ∨ c = '\'' then (readString s).map fun (t, s) => (string t, s)
    else if c = 't' then readWord "true".toList (bool true) s
    else if c = 'f' then readWord "false".toList (bool false) s
    else if c = 'i' ∨ c = 'n' then readSpecialFloat s
    else if c = '+' ∨ c = '-' ∨ c.isDigit then readNumber s
    else none

mutual

/-- Reads a value. Only `depth` arrays and inline tables may lie within each other. -/
def readValue : Nat → Nat → Text → Option (Toml × Text)
  | 0, _, _ => none
  | n + 1, depth, s =>
    match s, depth with
    | '[' :: s, depth + 1 => (readItems n depth s).map fun (items, s) => (array items, s)
    | '{' :: s, depth + 1 =>
      match skipBlanks s with
      | '}' :: s => some (table .inline [], s)
      | s => (readPairs n depth [] s).map fun (entries, s) => (table .inline entries, s)
    | s, _ => readScalar s

/-- Reads the items of an array up to its closing bracket. -/
def readItems : Nat → Nat → Text → Option (List Toml × Text)
  | 0, _, _ => none
  | n + 1, depth, s =>
    match skipIgnored false s with
    | ']' :: s => some ([], s)
    | s => do
      let (item, s) ← readValue n depth s
      match skipIgnored false s with
      | ',' :: s =>
        let (items, s) ← readItems n depth s
        return (item :: items, s)
      | ']' :: s => return ([item], s)
      | _ => none

/-- Reads the entries of an inline table up to its closing brace; `entries` are those before. -/
def readPairs : Nat → Nat → Entries → Text → Option (Entries × Text)
  | 0, _, _, _ => none
  | n + 1, depth, entries, s => do
    let ((path, key), s) ← readKey s
    let s ← readChar '=' s
    let (v, s) ← readValue n depth (skipBlanks s)
    let entries ← addEntry path key v .inline entries
    match skipBlanks s with
    | ',' :: s => readPairs n depth entries s
    | '}' :: s => return (entries, s)
    | _ => none

end

/-! ### Lines -/

/-- The text behind the end of a line, which white space and a comment may precede. -/
def readLineEnd (s : Text) : Option Text :=
  let s := match skipBlanks s with
    | '#' :: s => s.dropWhile isCommentChar
    | s => s
  match s with
  | [] => some []
  | s => readNewline s

def readExpression (d : Draft) (s : Text) : Option (Draft × Text) :=
  match s with
  | '[' :: '[' :: s => do
    let ((path, key), s) ← readKey s
    let s ← readChar ']' s
    let s ← readChar ']' s
    let s ← readLineEnd s
    let d ← d.start startTables path key
    return (d, s)
  | '[' :: s => do
    let ((path, key), s) ← readKey s
    let s ← readChar ']' s
    let s ← readLineEnd s
    let d ← d.start startTable path key
    return (d, s)
  | s => do
    let ((path, key), s) ← readKey s
    let s ← readChar '=' s
    let s := skipBlanks s
    let (v, s) ← readValue (2 * s.length + 2) (depthLimit - 1) s
    let s ← readLineEnd s
    let d ← d.add path key v
    return (d, s)

def readLines : Nat → Draft → Text → Option Draft
  | 0, _, _ => none
  | n + 1, d, s =>
    match skipBlanks s with
    | [] => some d
    | s =>
      match readLineEnd s with
      | some s => readLines n d s
      | none => do
        let (d, s) ← readExpression d s
        readLines n d s

/-- The text without a byte order mark in front. -/
def dropMark : Text → Text
  | '\ufeff' :: s => s
  | s => s

def read (s : Text) : Option Entries :=
  (readLines (s.length + 1) ⟨[], []⟩ (dropMark s)).map Draft.entries

end ShellLine.Toml
