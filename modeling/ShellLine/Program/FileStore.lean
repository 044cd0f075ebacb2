import ShellLine.Text.Utf8

/-! # Files

A store of files, as far as the program touches them: it reads a file, makes the
directories of a path, and appends to a file. A path is followed name by name, and
every name but the last must be a directory. -/

namespace ShellLine

/-- The names that lead from the root to a file or a directory. -/
abbrev Path := List Text

/-- Files with their contents, and directories. -/
structure FileStore where
  files : List (Path × Bytes)
  directories : List Path
  deriving DecidableEq, Repr

namespace FileStore

def isFile (fs : FileStore) (p : Path) : Bool := (fs.files.lookup p).isSome

/-- Whether a directory stands at a path: one that was made, or one that holds something. -/
def isDirectory (fs : FileStore) (p : Path) : Bool :=
  p.isEmpty || fs.directories.any (fun q => p.isPrefixOf q) ||
    fs.files.any fun f => p.isPrefixOf f.1 && f.1 != p

/-! ### Paths as texts -/

/-- The names of a path as it is written; empty names and single dots lead nowhere. -/
def namesOf (s : Text) : List Text :=
  (Text.splitAll '/' s).filter fun name => name ≠ [] ∧ name ≠ ['.']

/-- Whether a path can only mean a directory by the way it is written. -/
def meansDirectory (s : Text) : Bool :=
  match (Text.splitAll '/' s).getLast? with
  | none => true
  | some name => name.isEmpty || name == ['.'] || name == ['.', '.']

/-- Where a path starts: at the root, or at the directory at hand. -/
def startOf (here : Path) (s : Text) : Path := if s.head? = some '/' then [] else here

def enter (p : Path) (name : Text) : Path := if name = ['.', '.'] then p.dropLast else p ++ [name]

def follow (fs : FileStore) : Path → List Text → Option Path
  | p, [] => some p
  | p, name :: names =>
    if fs.isDirectory (enter p name) then follow fs (enter p name) names else none

/-- The place of the file that a path means. -/
def locate (fs : FileStore) (here : Path) (s : Text) : Option Path :=
  if s.contains '\x00' || meansDirectory s then none
  else do
    let name ← (namesOf s).getLast?
    let directory ← fs.follow (startOf here s) (namesOf s).dropLast
    return enter directory name

/-! ### Reading and appending -/

/-- The content of the file that a path means. -/
def read (fs : FileStore) (here : Path) (s : Text) : Option Bytes :=
  (fs.locate here s).bind fun p => fs.files.lookup p

/-- Makes the directories that names lead through, up to the first name that is a file. -/
def makeDirectories (fs : FileStore) : Path → List Text → FileStore
  | _, [] => fs
  | p, name :: names =>
    let q := enter p name
    if fs.isFile q then fs
    else if fs.isDirectory q then makeDirectories fs q names
    else makeDirectories { fs with directories := q :: fs.directories } q names

/-- The store with a file at a path, which is empty if there was none. -/
def create (fs : FileStore) (p : Path) : FileStore :=
  if fs.isFile p then fs else { fs with files := (p, []) :: fs.files }

/-- Makes the directories in which a file lies, then the file itself, and gives its place. There is
none if a file stands in the way or a directory in its place. -/
def openForAppend (fs : FileStore) (here : Path) (s : Text) : FileStore × Option Path :=
  let fs :=
    if s.contains '\x00' then fs else fs.makeDirectories (startOf here s) (namesOf s).dropLast
  match fs.locate here s with
  | none => (fs, none)
  | some p => if fs.isDirectory p then (fs, none) else (fs.create p, some p)

def append (fs : FileStore) (p : Path) (bytes : Bytes) : FileStore :=
  { fs with files := fs.files.map fun f => if f.1 = p then (p, f.2 ++ bytes) else f }

end FileStore

end ShellLine
