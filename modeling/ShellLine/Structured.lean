import ShellLine.Expansion
import ShellLine.Json
import ShellLine.Token

/-! # Structured output

Tokens, pipelines and expanded commands as JSON values. The members of every
object stand in a fixed order, and a number that is missing is null. -/

namespace ShellLine

def Json.record (members : List (String × Json)) : Json :=
  .object (members.map fun (name, j) => (name.toList, j))

def Json.word (s : String) : Json := .string s.toList

def Json.descriptor (fd : UInt32) : Json := .nat fd.toNat

/-! ### Tokens -/

def Span.toJson (s : Span) : Json := .record [("start", .nat s.start), ("end", .nat s.stop)]

def FdForm.toJson : FdForm → Json
  | write => .record [("kind", .word "write")]
  | append => .record [("kind", .word "append")]
  | dup target => .record [("kind", .word "dup"), ("target", .ofOption .descriptor target)]

def Operator.toJson : Operator → Json
  | less => .word "Lt"
  | greater => .word "Gt"
  | greaterGreater => .word "GtGt"
  | ampGreater => .word "AmpGt"
  | numbered fd form =>
    .record [("FdGt", .record [("fd", .descriptor fd), ("form", form.toJson)])]

/-- The kind of a token as a JSON value. -/
def Token.Kind.toJson : Token.Kind → Json
  | word => .word "Word"
  | pipe => .word "Pipe"
  | operator op => op.toJson
  | endOfInput => .word "EndOfInput"

def Token.toJson (t : Token) : Json :=
  .record [("kind", t.kind.toJson), ("text", .string t.text), ("span", t.span.toJson)]

/-! ### Pipelines -/

def Part.toJson : Part → Json
  | text v s => .record [("kind", .word "text"), ("value", .string v), ("span", s.toJson)]
  | reference x b s =>
    .record [("kind", .word "var"), ("name", .string x), ("braced", .bool b), ("span", s.toJson)]

def Word.toJson (w : Word) : Json :=
  .record [("parts", .ofList Part.toJson w.parts), ("span", w.span.toJson)]

def Redirection.toJson (r : Redirection) : Json :=
  .record [("op", .string r.op.name), ("fd", .ofOption .descriptor r.fd),
    ("target", r.target.toJson), ("dup_target_fd", .ofOption .descriptor r.dupTarget),
    ("span", r.span.toJson)]

def Command.toJson (c : Command) : Json :=
  .record [("words", .ofList Word.toJson c.words),
    ("redirections", .ofList Redirection.toJson c.redirections), ("span", c.span.toJson)]

def Pipeline.toJson (p : Pipeline) : Json :=
  .record [("commands", .ofList Command.toJson p.commands), ("span", p.span.toJson)]

def Diagnostic.toJson (d : Diagnostic) : Json :=
  .record [("kind", .string d.kind.name), ("span", d.span.toJson)]

/-- The pipeline and its diagnostics as a JSON value. -/
def ParseOutput.toJson (o : ParseOutput) : Json :=
  .record
    [("pipeline", o.pipeline.toJson),
     ("diagnostics", .ofList Diagnostic.toJson o.diagnostics)]

/-! ### Expanded commands -/

def RedirectTarget.toJson : RedirectTarget → Json
  | path p => .record [("path", .string p)]
  | descriptor fd => .record [("fd", .ofOption .descriptor fd)]

def ResolvedRedirection.toJson (r : ResolvedRedirection) : Json :=
  .record
    [("op", .string r.op.name), ("fds", .ofList .descriptor r.fds),
     ("target", r.target.toJson)]

def ExpandedCommand.toJson (c : ExpandedCommand) : Json :=
  .record [("argv", .ofList .string c.argv),
    ("redirections", .ofList ResolvedRedirection.toJson c.redirections)]

end ShellLine
