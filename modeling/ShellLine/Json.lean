import ShellLine.Number.Decimal

/-! # JSON values

A JSON value is a tree; the members of an object keep their order and may repeat a
name. Integers and floating-point numbers are kept apart. `Json.render` writes a
value without any white space. -/

namespace ShellLine

/-- A JSON value. -/
inductive Json
  | null
  | bool (b : Bool)
  | int (n : Int)
  | float (x : Binary64)
  | string (s : Text)
  | array (items : List Json)
  | object (members : List (Text × Json))
  deriving Repr

namespace Json

def nat (n : Nat) : Json := int n

def ofOption {α : Type} (f : α → Json) : Option α → Json
  | some a => f a
  | none => null

def ofList {α : Type} (f : α → Json) (xs : List α) : Json := array (xs.map f)

/-! ### Writing -/

/-- The letter behind a backslash that stands for a character. -/
def escapeLetter? (c : Char) : Option Char :=
  if c = '"' then some '"'
  else if c = '\\' then some '\\'
  else if c = '\x08' then some 'b'
  else if c = '\t' then some 't'
  else if c = '\n' then some 'n'
  else if c = '\x0c' then some 'f'
  else if c = '\r' then some 'r'
  else none

def hex4 (n : Nat) : Text :=
  let digits := Nat.toDigits 16 n
  List.replicate (4 - digits.length) '0' ++ digits

/-- A character as it stands in a string: controls and the two signs that would be misread have
a backslash. -/
def renderChar (c : Char) : Text :=
  match escapeLetter? c with
  | some letter => ['\\', letter]
  | none => if c.toNat < 0x20 then '\\' :: 'u' :: hex4 c.toNat else [c]

def renderString (s : Text) : Text := '"' :: s.flatMap renderChar ++ ['"']

mutual

def render : Json → Text
  | null => "null".toList
  | bool true => "true".toList
  | bool false => "false".toList
  | int n => Text.ofInt n
  | float x => x.render
  | string s => renderString s
  | array items => '[' :: Text.join [','] (renderItems items) ++ [']']
  | object members => '{' :: Text.join [','] (renderMembers members) ++ ['}']

def renderItems : List Json → List Text
  | [] => []
  | j :: js => render j :: renderItems js

def renderMembers : List (Text × Json) → List Text
  | [] => []
  | (name, j) :: ms => (renderString name ++ ':' :: render j) :: renderMembers ms

end

end Json

end ShellLine
