import ShellLine.Json.Literal

/-! # JSON texts as far as they can be read

A text that is not JSON is JSON up to some place. `Document.read` keeps what stands
before that place, so that whoever takes values out of a document meets the first
thing that is wrong, be it the text or the kind of a value, in reading order. -/

namespace ShellLine.Json

/-- Why a document does not give what is wanted. -/
inductive ReadError
  /-- The text is not JSON. -/
  | malformed
  /-- A value is of another kind. -/
  | mismatch
  deriving DecidableEq, Repr

/-- A JSON text as far as it could be read. An array or object is closed unless reading stopped
within it. -/
inductive Document
  | null
  | bool (b : Bool)
  | number (l : NumberLiteral)
  | string (items : List StringItem)
  | array (items : List Document) (closed : Bool)
  | object (members : List (List StringItem × Document)) (closed : Bool)
  /-- Where a value should stand and none does. -/
  | missing
  deriving Repr

namespace Document

def isSpace (c : Char) : Bool := c == ' ' || c == '\t' || c == '\r' || c == '\n'

def skipSpace (s : Text) : Text := s.dropWhile isSpace

def readWord (d : Document) (word s : Text) : Document × Option Text :=
  if word.isPrefixOf s then (d, some (s.drop word.length)) else (missing, none)

/-- Reads a value that is neither an array nor an object. -/
def readScalar (s : Text) : Document × Option Text :=
  match s with
  | 'n' :: _ => readWord null "null".toList s
  | 't' :: _ => readWord (bool true) "true".toList s
  | 'f' :: _ => readWord (bool false) "false".toList s
  | '"' :: rest =>
    match StringItem.readAll rest.length rest with
    | some (items, rest) => (string items, some rest)
    | none => (missing, none)
  | _ =>
    match NumberLiteral.read s with
    | some (l, rest) => (number l, some rest)
    | none => (missing, none)

/-- The text from the next item on, `none` where no item may follow: the first item stands at
once, every other one behind a comma, and no comma stands in front of the closing bracket. -/
def nextItem? (first : Bool) (close : Char) (s : Text) : Option Text :=
  if first then some s
  else
    match s with
    | ',' :: s => if (skipSpace s).head? = some close then none else some (skipSpace s)
    | _ => none

mutual

/-- Reads the value at the front of a text. No text is left where reading stopped. -/
def readValue : Nat → Text → Document × Option Text
  | 0, _ => (missing, none)
  | n + 1, s =>
    match skipSpace s with
    | '[' :: s =>
      let (items, rest) := readItems n true s
      (array items rest.isSome, rest)
    | '{' :: s =>
      let (members, rest) := readMembers n true s
      (object members rest.isSome, rest)
    | s => readScalar s

/-- Reads the items of an array up to its closing bracket. -/
def readItems : Nat → Bool → Text → List Document × Option Text
  | 0, _, _ => ([], none)
  | n + 1, first, s =>
    match skipSpace s with
    | ']' :: s => ([], some s)
    | s =>
      match nextItem? first ']' s with
      | none => ([], none)
      | some s =>
        match readValue n s with
        | (item, none) => ([item], none)
        | (item, some s) =>
          let (items, rest) := readItems n false s
          (item :: items, rest)

/-- Reads the members of an object up to its closing brace. -/
def readMembers : Nat → Bool → Text → List (List StringItem × Document) × Option Text
  | 0, _, _ => ([], none)
  | n + 1, first, s =>
    match skipSpace s with
    | '}' :: s => ([], some s)
    | s =>
      match nextItem? first '}' s with
      | some ('"' :: s) =>
        match StringItem.readAll s.length s with
        | none => ([], none)
        | some (name, s) =>
          match skipSpace s with
          | ':' :: s =>
            match readValue n s with
            | (value, none) => ([(name, value)], none)
            | (value, some s) =>
              let (members, rest) := readMembers n false s
              ((name, value) :: members, rest)
          | _ => ([(name, missing)], none)
      | _ => ([], none)

end

/-- Reads the document at the front of a text. Every call takes a character or is followed by one
that does, so twice the length is enough. -/
def read (s : Text) : Document × Option Text := readValue (2 * s.length + 2) s

/-! ### Values -/

/-- Arrays and objects may lie this deep within each other. -/
def maxDepth : Nat := 127

/-- A value, or the news that the text is not JSON. -/
def orMalformed {α : Type} : Option α → Except ReadError α
  | some a => .ok a
  | none => .error .malformed

mutual

/-- The value of a document. Only `depth` arrays and objects may lie within each other. -/
def value (depth : Nat) : Document → Except ReadError Json
  | null => .ok .null
  | bool b => .ok (.bool b)
  | number l => orMalformed l.value?
  | string items => orMalformed ((StringItem.text? items).map .string)
  | array items closed =>
    match depth with
    | 0 => .error .malformed
    | depth + 1 => do
      let items ← itemValues depth items
      if closed then .ok (.array items) else .error .malformed
  | object members closed =>
    match depth with
    | 0 => .error .malformed
    | depth + 1 => do
      let members ← memberValues depth members
      if closed then .ok (.object members) else .error .malformed
  | missing => .error .malformed

def itemValues (depth : Nat) : List Document → Except ReadError (List Json)
  | [] => .ok []
  | d :: ds => do
    let j ← value depth d
    let js ← itemValues depth ds
    return j :: js

def memberValues (depth : Nat) :
    List (List StringItem × Document) → Except ReadError (List (Text × Json))
  | [] => .ok []
  | (name, d) :: ms => do
    let name ← orMalformed (StringItem.text? name)
    let j ← value depth d
    let ms ← memberValues depth ms
    return (name, j) :: ms

end

/-- The error where a value of another kind is wanted. A scalar is looked at before it is refused,
an array or object is not. -/
def refusal : Document → ReadError
  | number l => if l.value?.isSome then .mismatch else .malformed
  | string items => if (StringItem.text? items).isSome then .mismatch else .malformed
  | missing => .malformed
  | _ => .mismatch

def asBool : Document → Except ReadError Bool
  | bool b => .ok b
  | d => .error d.refusal

def asText : Document → Except ReadError Text
  | string items => orMalformed (StringItem.text? items)
  | d => .error d.refusal

/-! ### Records -/

/-- A member of a record that fills a value of type `σ` step by step. -/
structure RecordField (σ : Type) where
  name : Text
  read : Document → σ → Except ReadError σ

/-- Reads the members of an object. A name that is not wanted is passed over, and one that is
wanted may stand there only once. -/
def readFields {σ : Type} (fields : List (RecordField σ)) :
    List Text → List (List StringItem × Document) → σ → Except ReadError σ
  | _, [], st => .ok st
  | seen, (name, d) :: members, st => do
    let name ← orMalformed (StringItem.text? name)
    match fields.find? fun f => f.name = name with
    | none => readFields fields seen members st
    | some f =>
      if seen.contains name then .error .mismatch
      else do
        let st ← f.read d st
        readFields fields (name :: seen) members st

/-- Reads the items of an array as the fields in their order. Fields at the end may be left
out. -/
def readPositions {σ : Type} (closed : Bool) :
    List (RecordField σ) → List Document → σ → Except ReadError σ
  | _, [], st => if closed then .ok st else .error .malformed
  | [], _ :: _, _ => .error .malformed
  | f :: fs, d :: ds, st => do
    let st ← f.read d st
    readPositions closed fs ds st

/-- Reads a record: an object by names, or an array by positions. -/
def asRecord {σ : Type} (fields : List (RecordField σ)) (start : σ) : Document → Except ReadError σ
  | object members closed => do
    let st ← readFields fields [] members start
    if closed then .ok st else .error .malformed
  | array items closed => readPositions closed fields items start
  | d => .error d.refusal

end Document

/-! ### Whole texts -/

/-- Takes something out of a text that holds one document and nothing else. -/
def decode {α : Type} (take : Document → Except ReadError α) (s : Text) : Except ReadError α := do
  let (d, rest) := Document.read s
  let a ← take d
  match rest with
  | some rest => if (Document.skipSpace rest).isEmpty then .ok a else .error .malformed
  | none => .error .malformed

def read (s : Text) : Except ReadError Json := decode (Document.value Document.maxDepth) s

end ShellLine.Json
