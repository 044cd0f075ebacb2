import ShellLine.Number.Decimal
import ShellLine.Toml.Strings

/-! # Writing TOML

A string is written in the plainest of five ways that can hold it: between double
quotes without a backslash, between single quotes, over several lines in one of the
two, and at last between double quotes with backslashes. -/

namespace ShellLine.Toml

/-! ### Strings -/

/-- Length of the longest run of a character in a text; `run` of them stand directly in front. -/
def longestRun (c : Char) : Nat → Text → Nat
  | run, [] => run
  | run, d :: s => if d = c then longestRun c (run + 1) s else max run (longestRun c 0 s)

/-- What decides how a string is written. -/
structure StringTraits where
  hasControl : Bool
  hasBackslash : Bool
  hasNewline : Bool
  doubleRun : Nat
  singleRun : Nat
  deriving DecidableEq, Repr

/-- The traits of a text. A newline does not count as a control here. -/
def traits (s : Text) : StringTraits :=
  ⟨s.any fun c => isControl c && c != '\n', s.contains '\\', s.contains '\n',
    longestRun '"' 0 s, longestRun '\'' 0 s⟩

/-- How a string is written. -/
inductive StringStyle
  | basic
  | literal
  | multiBasic
  | multiLiteral
  deriving DecidableEq, Repr

namespace StringTraits

/-- The first style that can hold the string without a backslash, or else one with. -/
def style (t : StringTraits) : StringStyle :=
  if !t.hasControl && !t.hasBackslash && t.doubleRun = 0 && !t.hasNewline then .basic
  else if !t.hasControl && t.singleRun = 0 && !t.hasNewline then .literal
  else if !t.hasControl && !t.hasBackslash && t.doubleRun ≤ 2 then .multiBasic
  else if !t.hasControl && t.singleRun ≤ 2 then .multiLiteral
  else if t.hasNewline then .multiBasic
  else .basic

/-- The style of a key, which is never over several lines. -/
def keyStyle (t : StringTraits) : StringStyle :=
  if !t.hasControl && !t.hasNewline && !t.hasBackslash && t.doubleRun = 0 then .basic
  else if !t.hasControl && !t.hasNewline && t.singleRun = 0 then .literal
  else .basic

end StringTraits

def hex4 (n : Nat) : Text :=
  let digits := (Nat.toDigits 16 n).map Char.toUpper
  List.replicate (4 - digits.length) '0' ++ digits

def escapeChar (c : Char) : Text :=
  if c = '\x08' then ['\\', 'b']
  else if c = '\t' then ['\\', 't']
  else if c = '\n' then ['\\', 'n']
  else if c = '\x0c' then ['\\', 'f']
  else if c = '\r' then ['\\', 'r']
  else if c = '"' then ['\\', '"']
  else if c = '\\' then ['\\', '\\']
  else if isControl c then '\\' :: 'u' :: hex4 c.toNat
  else [c]

/-- A text between triple double quotes, `run` of them standing directly in front: newlines stay,
and only every third quote in a row needs a backslash. -/
def escapeMulti : Nat → Text → Text
  | _, [] => []
  | run, c :: s =>
    if c = '"' then
      if run < 2 then '"' :: escapeMulti (run + 1) s else '\\' :: '"' :: escapeMulti 0 s
    else if c = '\n' then '\n' :: escapeMulti 0 s
    else escapeChar c ++ escapeMulti 0 s

/-- A newline behind the opening quotes of a string over several lines, which reading drops. -/
def leadingNewline (s : Text) : Text := if s.contains '\n' then ['\n'] else []

def renderStyle (style : StringStyle) (s : Text) : Text :=
  match style with
  | .basic => '"' :: s.flatMap escapeChar ++ ['"']
  | .literal => '\'' :: s ++ ['\'']
  | .multiBasic => ['"', '"', '"'] ++ leadingNewline s ++ escapeMulti 0 s ++ ['"', '"', '"']
  | .multiLiteral => ['\'', '\'', '\''] ++ leadingNewline s ++ s ++ ['\'', '\'', '\'']

def renderString (s : Text) : Text := renderStyle (traits s).style s

/-- A key: without quotes if every character allows it. -/
def renderKey (s : Text) : Text :=
  if s ≠ [] ∧ s.all isBareKeyChar then s else renderStyle (traits s).keyStyle s

/-! ### Other values -/

def renderBool (b : Bool) : Text := if b then "true".toList else "false".toList

/-- A floating-point number; a whole one shows that it is none of the integers. -/
def renderFloat (x : Binary64) : Text :=
  if x.isNaN then "nan".toList
  else if x.isFinite && x.isWhole then x.render ++ ".0".toList
  else x.render

end ShellLine.Toml
