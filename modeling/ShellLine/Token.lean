import ShellLine.Span

/-! # Tokens

A line is cut into words, pipes and redirection operators, and every line ends
with one token for its end. A token keeps its exact text and its span. -/

namespace ShellLine

/-- What an operator with a number in front does. -/
inductive FdForm
  /-- Writes to the file that follows: `N>`. -/
  | write
  /-- Appends to the file that follows: `N>>`. -/
  | append
  /-- Makes a copy of another number, `none` when that number is missing or too large: `N>&M`. -/
  | dup (target : Option UInt32)
  deriving DecidableEq, Repr

/-- A redirection operator. -/
inductive Operator
  /-- The sign `<`. -/
  | less
  /-- The sign `>`. -/
  | greater
  /-- The sign `>>`. -/
  | greaterGreater
  /-- The sign `&>`. -/
  | ampGreater
  /-- A number directly followed by a sign. -/
  | numbered (fd : UInt32) (form : FdForm)
  deriving DecidableEq, Repr

namespace Token

/-- What a token is. -/
inductive Kind
  | word
  | pipe
  | operator (op : Operator)
  | endOfInput
  deriving DecidableEq, Repr

end Token

/-- A token with its exact source text, quotes and backslashes included. -/
structure Token where
  kind : Token.Kind
  text : Text
  span : Span
  deriving DecidableEq, Repr

namespace Operator

/-- Whether the word that follows, if there is one, belongs to the operator. -/
def takesWord : Operator → Bool
  | .numbered _ (.dup _) => false
  | _ => true

end Operator

namespace Token

def isWord (t : Token) : Bool := t.kind == .word

def isPipe (t : Token) : Bool := t.kind == .pipe

/-- Whether the token is the end of the line. -/
def isEnd (t : Token) : Bool := t.kind == .endOfInput

end Token

end ShellLine
