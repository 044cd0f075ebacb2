import ShellLine.Text.Basic
import ShellLine.Text.Printable

/-! # Texts in quotes

A text is shown between double quotes. A quote or a backslash gets a backslash in
front, some controls have a letter, and every other character that cannot be shown
is written as its code point. -/

namespace ShellLine.Text

def hex (n : Nat) : Text := Nat.toDigits 16 n

/-- The letter behind a backslash that stands for a character. -/
def quotedLetter? (c : Char) : Option Char :=
  if c = '\x00' then some '0'
  else if c = '\t' then some 't'
  else if c = '\r' then some 'r'
  else if c = '\n' then some 'n'
  else if c = '"' then some '"'
  else if c = '\\' then some '\\'
  else none

def quotedChar (c : Char) : Text :=
  match quotedLetter? c with
  | some letter => ['\\', letter]
  | none => if isShown c then [c] else ['\\', 'u', '{'] ++ hex c.toNat ++ ['}']

def quoted (s : Text) : Text := '"' :: s.flatMap quotedChar ++ ['"']

end ShellLine.Text
