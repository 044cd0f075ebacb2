import ShellLine.Toml

/-! # Strings and keys of TOML

A string stands between double quotes, where a backslash has a meaning, or between
single quotes, where it has none. With three quotes on either side it may go over
several lines: a newline directly behind the opening quotes is dropped, and up to
two quotes may stand directly in front of the closing ones. -/

namespace ShellLine.Toml

/-! ### Characters -/

def isBlank (c : Char) : Bool := c == ' ' || c == '\t'

def skipBlanks (s : Text) : Text := s.dropWhile isBlank

/-- Whether a character is a control other than the tab. -/
def isControl (c : Char) : Bool := (c.toNat < 0x20 && c != '\t') || c.toNat == 0x7f

/-- The text behind a newline in front of it: a line feed, or a carriage return and one. -/
def readNewline : Text → Option Text
  | '\n' :: s => some s
  | '\r' :: '\n' :: s => some s
  | _ => none

/-- The text without white space and newlines in front. -/
def skipBlankLines : Text → Text
  | [] => []
  | c :: s =>
    if isBlank c || c == '\n' || (c == '\r' && s.head? == some '\n') then skipBlankLines s
    else c :: s

/-- The character that a letter behind a backslash stands for. -/
def escaped? (c : Char) : Option Char :=
  if c = '"' ∨ c = '\\' then some c
  else if c = 'b' then some '\x08'
  else if c = 'f' then some '\x0c'
  else if c = 'n' then some '\n'
  else if c = 'r' then some '\r'
  else if c = 't' then some '\t'
  else none

/-- The character with a code point, if there is one. -/
def charOfCode? (n : Nat) : Option Char := if n.isValidChar then some (Char.ofNat n) else none

def readCode (width : Nat) (s : Text) : Option (Char × Text) := do
  let digits := s.take width
  if digits.length = width then
    let c ← (Text.hexValue? digits).bind charOfCode?
    return (c, s.drop width)
  else none

def readEscape : Text → Option (Char × Text)
  | [] => none
  | c :: s =>
    if c = 'u' then readCode 4 s
    else if c = 'U' then readCode 8 s
    else (escaped? c).map fun c => (c, s)

def readQuotedChar : Text → Option (Char × Text)
  | [] => none
  | c :: s =>
    if c = '\\' then readEscape s
    else if c = '"' ∨ isControl c then none
    else some (c, s)

/-! ### Strings on one line -/

/-- Reads a string up to its closing double quote. -/
def readBasic : Nat → Text → Option (Text × Text)
  | 0, _ => none
  | _, '"' :: s => some ([], s)
  | n + 1, s => do
    let (c, s) ← readQuotedChar s
    let (t, s) ← readBasic n s
    return (c :: t, s)

def isLiteralChar (c : Char) : Bool := c != '\'' && !isControl c

/-- Reads a string up to its closing single quote. -/
def readLiteral (s : Text) : Option (Text × Text) :=
  match s.dropWhile isLiteralChar with
  | '\'' :: rest => some (s.takeWhile isLiteralChar, rest)
  | _ => none

/-! ### Strings over several lines -/

/-- Where a run of quotes ends a string: three quotes do, and up to two more in front of them
belong to it. Gives the number of quotes that belong to it. -/
def closingQuotes? (run : Nat) : Option Nat := if run < 3 then none else some (min run 5 - 3)

def quoteRun (quote : Char) (s : Text) : Nat := (s.takeWhile (· == quote)).length

/-- Reads a string over several lines up to its closing double quotes. A backslash at the end of a
line takes the white space and the empty lines behind it away. -/
def readMultiBasic : Nat → Text → Option (Text × Text)
  | 0, _ => none
  | n + 1, s =>
    match s with
    | [] => none
    | c :: rest =>
      if c = '"' then
        let run := quoteRun '"' s
        match closingQuotes? run with
        | some extra => some (List.replicate extra '"', s.drop (extra + 3))
        | none => (readMultiBasic n (s.drop run)).map fun (t, s) => (List.replicate run '"' ++ t, s)
      else if c = '\\' ∧ (readNewline (skipBlanks rest)).isSome then
        readMultiBasic n (skipBlankLines rest)
      else
        match readNewline s with
        | some s => (readMultiBasic n s).map fun (t, s) => ('\n' :: t, s)
        | none => do
          let (c, s) ← readQuotedChar s
          let (t, s) ← readMultiBasic n s
          return (c :: t, s)

/-- Reads a string over several lines up to its closing single quotes. -/
def readMultiLiteral : Nat → Text → Option (Text × Text)
  | 0, _ => none
  | n + 1, s =>
    match s with
    | [] => none
    | c :: rest =>
      if c = '\'' then
        let run := quoteRun '\'' s
        match closingQuotes? run with
        | some extra => some (List.replicate extra '\'', s.drop (extra + 3))
        | none =>
          (readMultiLiteral n (s.drop run)).map fun (t, s) => (List.replicate run '\'' ++ t, s)
      else
        match readNewline s with
        | some s => (readMultiLiteral n s).map fun (t, s) => ('\n' :: t, s)
        | none =>
          if isControl c then none
          else (readMultiLiteral n rest).map fun (t, s) => (c :: t, s)

def dropNewline (s : Text) : Text := (readNewline s).getD s

def readString (s : Text) : Option (Text × Text) :=
  match s with
  | '"' :: '"' :: '"' :: s => readMultiBasic (s.length + 1) (dropNewline s)
  | '"' :: s => readBasic (s.length + 1) s
  | '\'' :: '\'' :: '\'' :: s => readMultiLiteral (s.length + 1) (dropNewline s)
  | '\'' :: s => readLiteral s
  | _ => none

/-! ### Keys -/

/-- Whether a character may stand in a key without quotes. -/
def isBareKeyChar (c : Char) : Bool := c.isAlphanum || c == '-' || c == '_'

def readKeyPart (s : Text) : Option (Text × Text) :=
  match s with
  | '"' :: s => readBasic (s.length + 1) s
  | '\'' :: s => readLiteral s
  | s =>
    let name := s.takeWhile isBareKeyChar
    if name = [] then none else some (name, s.dropWhile isBareKeyChar)

/-- Reads parts with dots between them, and the white space around them. -/
def readKeyParts : Nat → Text → Option (List Text × Text)
  | 0, _ => none
  | n + 1, s => do
    let (part, s) ← readKeyPart (skipBlanks s)
    match skipBlanks s with
    | '.' :: s =>
      let (parts, s) ← readKeyParts n s
      return (part :: parts, s)
    | s => return ([part], s)

/-- A key has fewer parts than this, and values lie less deep within each other. -/
def depthLimit : Nat := 80

/-- Reads a key: the path to its table, and its last part. -/
def readKey (s : Text) : Option ((List Text × Text) × Text) := do
  let (parts, s) ← readKeyParts depthLimit s
  if parts.length < depthLimit then
    let last ← parts.getLast?
    return ((parts.dropLast, last), s)
  else none

end ShellLine.Toml
