import ShellLine.Pipeline
import ShellLine.Text.Quoted

/-! # Dump of a pipeline

A pipeline is shown line by line: itself, its commands, their words and
redirections in the order of the line, and what was missing or left open. Every
line names its place. Literal texts stand between quotes, so that it is seen where
one ends and whether a variable or a text that looks like one is meant. -/

namespace ShellLine

namespace Part

def dump : Part → Text
  | text v _ => Text.quoted v
  | reference x false _ => '$' :: x
  | reference x true _ => '$' :: '{' :: x ++ ['}']

end Part

namespace Word

/-- The parts one after the other; a word without parts is shown as an empty text. -/
def dump (w : Word) : Text :=
  match w.parts with
  | [] => Text.quoted []
  | ps => Text.join [' '] (ps.map Part.dump)

end Word

namespace Redirection

def dumpDupTarget (r : Redirection) : Text :=
  match r.dupTarget with
  | some fd => Text.ofNat fd.toNat
  | none => "<missing>".toList

def dumpTarget (r : Redirection) : Text :=
  if r.op = .dup then r.dumpDupTarget else r.target.dump

def dumpFds (fds : List UInt32) : Text := Text.join [','] (fds.map fun fd => Text.ofNat fd.toNat)

def dump (r : Redirection) : Text :=
  "fd=".toList ++ dumpFds r.sourceFds ++ ' ' :: r.op.symbol ++ ' ' :: r.dumpTarget

end Redirection

namespace Element

def dumpLine : Element → Text
  | word w => "    word ".toList ++ w.span.render ++ ": ".toList ++ w.dump
  | redirection r => "    redirect ".toList ++ r.span.render ++ ": ".toList ++ r.dump

end Element

namespace Command

def dumpLines (i : Nat) (c : Command) : List Text :=
  ("  command ".toList ++ Text.ofNat i ++ ' ' :: c.span.render) :: c.elements.map Element.dumpLine

end Command

namespace Pipeline

def dumpHead (p : Pipeline) : Text :=
  let n := p.commands.length
  "pipeline ".toList ++ p.span.render ++ " (".toList ++ Text.ofNat n ++
    (if n = 1 then " command)".toList else " commands)".toList)

def dumpLines (p : Pipeline) : List Text :=
  p.dumpHead :: (p.commands.mapIdx Command.dumpLines).flatten

def dump (p : Pipeline) : Text := Text.unlines p.dumpLines

end Pipeline

namespace Diagnostic

def dumpLine (d : Diagnostic) : Text :=
  "  diagnostic ".toList ++ d.span.render ++ ": ".toList ++ d.kind.message

end Diagnostic

namespace ParseOutput

/-- The pipeline as it is shown, and a line for each diagnostic. -/
def dump (o : ParseOutput) : Text :=
  o.pipeline.dump ++ Text.unlines (o.diagnostics.map Diagnostic.dumpLine)

end ParseOutput

end ShellLine
