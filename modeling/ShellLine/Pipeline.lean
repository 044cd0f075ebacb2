import ShellLine.Diagnostic
import ShellLine.Word

/-! # Pipelines

A pipeline is a list of commands, and a command holds words and redirections.
Words and redirections are kept apart; `Command.elements` puts them back into one
list by their starts. -/

namespace ShellLine

/-- What a redirection does. -/
inductive RedirectOp
  /-- Reads from a file. -/
  | input
  /-- Writes to a file. -/
  | output
  /-- Appends to a file. -/
  | append
  /-- Writes both output streams to a file. -/
  | clobber
  /-- Makes one descriptor a copy of another. -/
  | dup
  deriving DecidableEq, Repr

namespace RedirectOp

def symbol : RedirectOp → Text
  | input => "<".toList
  | output => ">".toList
  | append => ">>".toList
  | clobber => "&>".toList
  | dup => ">&".toList

def name : RedirectOp → Text
  | clobber => "clobber".toList
  | dup => "dup".toList
  | op => op.symbol

end RedirectOp

/-- A directive that points a descriptor of a command elsewhere. -/
structure Redirection where
  op : RedirectOp
  /-- The descriptor in question; none if both output streams are meant. -/
  fd : Option UInt32
  /-- The file; a placeholder where none is given and for copies of descriptors. -/
  target : Word
  /-- The descriptor that is copied. -/
  dupTarget : Option UInt32
  span : Span
  deriving DecidableEq, Repr

namespace Redirection

def sourceFds (r : Redirection) : List UInt32 :=
  match r.fd with
  | some fd => [fd]
  | none => [1, 2]

def shift (n : Nat) (r : Redirection) : Redirection :=
  { r with target := r.target.shift n, span := r.span.shift n }

end Redirection

/-- A word or a redirection. -/
inductive Element
  | word (w : Word)
  | redirection (r : Redirection)
  deriving DecidableEq, Repr

namespace Element

def span : Element → Span
  | word w => w.span
  | redirection r => r.span

def word? : Element → Option Word
  | word w => some w
  | redirection _ => none

def redirection? : Element → Option Redirection
  | word _ => none
  | redirection r => some r

end Element

/-- One command of a pipeline. -/
structure Command where
  words : List Word
  redirections : List Redirection
  span : Span
  deriving DecidableEq, Repr

namespace Command

def isEmpty (c : Command) : Bool := c.words.isEmpty && c.redirections.isEmpty

/-- Words and redirections by their starts; a word comes before a redirection that starts at the
same place, and equals keep their order. -/
def elements (c : Command) : List Element :=
  (c.words.map Element.word ++ c.redirections.map Element.redirection).mergeSort
    fun a b => a.span.start ≤ b.span.start

def shift (n : Nat) (c : Command) : Command :=
  ⟨c.words.map (Word.shift n), c.redirections.map (Redirection.shift n), c.span.shift n⟩

end Command

/-- Commands connected by pipes. -/
structure Pipeline where
  commands : List Command
  span : Span
  deriving DecidableEq, Repr

/-- A pipeline and the anomalies met while reading it. -/
structure ParseOutput where
  pipeline : Pipeline
  diagnostics : List Diagnostic
  deriving DecidableEq, Repr

namespace ParseOutput

def isClean (o : ParseOutput) : Bool := o.diagnostics.isEmpty

end ParseOutput

end ShellLine
