import ShellLine.Context
import ShellLine.Pipeline

/-! # Expansion

Expansion replaces the references of a word by the texts that a lookup gives their
names. A word always gives one argument: values are neither split nor read again,
and a name without a text gives nothing. -/

namespace ShellLine

namespace Part

def expand (lookup : Lookup) : Part → Text
  | text v _ => v
  | reference x _ _ => (lookup x).getD []

/-- The name that a part refers to, if it has no text. -/
def unset? (lookup : Lookup) : Part → Option Text
  | text _ _ => none
  | reference x _ _ => if (lookup x).isSome then none else some x

end Part

namespace Word

def expand (lookup : Lookup) (w : Word) : Text := w.parts.flatMap (Part.expand lookup)

/-- The names in a word that have no text, in their order. -/
def unset (lookup : Lookup) (w : Word) : List Text := w.parts.filterMap (Part.unset? lookup)

end Word

/-- Where a redirection points once its target is known. -/
inductive RedirectTarget
  /-- A file. -/
  | path (p : Text)
  /-- A descriptor, unless it was left out. -/
  | descriptor (fd : Option UInt32)
  deriving DecidableEq, Repr

/-- A redirection whose target is known. -/
structure ResolvedRedirection where
  op : RedirectOp
  fds : List UInt32
  target : RedirectTarget
  deriving DecidableEq, Repr

namespace Redirection

/-- Whether the redirection has a file as its target. -/
def hasPath (r : Redirection) : Bool := r.op != .dup

def resolve (lookup : Lookup) (r : Redirection) : ResolvedRedirection :=
  ⟨r.op, r.sourceFds,
    if r.hasPath then .path (r.target.expand lookup) else .descriptor r.dupTarget⟩

/-- The names in the target that have no text. -/
def unset (lookup : Lookup) (r : Redirection) : List Text :=
  if r.hasPath then r.target.unset lookup else []

end Redirection

/-- The arguments and redirections of a command, ready to be executed. -/
structure ExpandedCommand where
  argv : List Text
  redirections : List ResolvedRedirection
  deriving DecidableEq, Repr

namespace Command

def expand (lookup : Lookup) (c : Command) : ExpandedCommand :=
  ⟨c.words.map (Word.expand lookup), c.redirections.map (Redirection.resolve lookup)⟩

/-- The names in a command that have no text: those of its words, then those of its targets. -/
def unset (lookup : Lookup) (c : Command) : List Text :=
  c.words.flatMap (Word.unset lookup) ++ c.redirections.flatMap (Redirection.unset lookup)

end Command

namespace Pipeline

def expand (lookup : Lookup) (p : Pipeline) : List ExpandedCommand :=
  p.commands.map (Command.expand lookup)

/-- The names in a pipeline that have no text. -/
def unset (lookup : Lookup) (p : Pipeline) : List Text :=
  p.commands.flatMap (Command.unset lookup)

end Pipeline

end ShellLine
