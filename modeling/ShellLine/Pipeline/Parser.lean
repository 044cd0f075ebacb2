import ShellLine.Pipeline
import ShellLine.Token.Lexer
import ShellLine.Word.Reading

/-! # From tokens to pipelines

Tokens are read from the left. A word directly behind an operator that takes one
is its target, every other word is an argument, and a pipe ends a command.
Nothing is refused: a missing target becomes a placeholder, and every repair is a
`Recovery` that keeps the text it concerns. The diagnostics of a line are those of
its recoveries, in the order in which they are made; recoveries for empty commands
come last. -/

namespace ShellLine

/-- A repair made while reading. -/
inductive Recovery
  /-- An operator at this place has no word behind it. -/
  | missingTarget (op : RedirectOp) (span : Span)
  /-- `N>&`, written as `source`, does not say which descriptor to copy. -/
  | unusableDup (source : Text) (span : Span)
  /-- A raw word leaves something open. -/
  | openWord (raw : Text) (diagnostic : Diagnostic)
  /-- A command of a longer pipeline is empty. -/
  | emptyCommand (span : Span)
  deriving DecidableEq, Repr

namespace Recovery

/-- A copy whose text ends in a digit names a number that is too large; otherwise the number is
missing. -/
def dupAnomaly (source : Text) : Anomaly :=
  if (source.getLast?.map Char.isDigit).getD false then .invalidDupTarget else .missingDupTarget

def diagnostic : Recovery → Diagnostic
  | missingTarget _ span => ⟨.missingRedirectTarget, span⟩
  | unusableDup source span => ⟨dupAnomaly source, span⟩
  | openWord _ d => d
  | emptyCommand span => ⟨.emptyCommand, span⟩

end Recovery

/-! ### Elements -/

namespace Operator

def redirectOp : Operator → RedirectOp
  | less => .input
  | greater => .output
  | greaterGreater => .append
  | ampGreater => .clobber
  | numbered _ .write => .output
  | numbered _ .append => .append
  | numbered _ (.dup _) => .dup

def fd? : Operator → Option UInt32
  | less => some 0
  | greater => some 1
  | greaterGreater => some 1
  | ampGreater => none
  | numbered fd _ => some fd

def dupTarget? : Operator → Option UInt32
  | numbered _ (.dup target) => target
  | _ => none

end Operator

def Word.ofToken (t : Token) : Word := ⟨partsOfRaw t.text t.span.start, t.span⟩

/-- The repairs within the word that a token gives. -/
def Recovery.ofToken (t : Token) : List Recovery :=
  (diagnosticsOfRaw t.text t.span.start).map (openWord t.text)

/-- The redirection of an operator token with this target. -/
def Redirection.ofToken (op : Operator) (t : Token) (target : Word) : Redirection :=
  ⟨op.redirectOp, op.fd?, target, op.dupTarget?, t.span.cover target.span⟩

/-- The repair for an operator token that no word follows. -/
def Recovery.ofBareOperator (op : Operator) (t : Token) : List Recovery :=
  match op with
  | .numbered _ (.dup none) => [unusableDup t.text t.span]
  | .numbered _ (.dup (some _)) => []
  | op => [missingTarget op.redirectOp t.span]

/-- One command as it is read. -/
structure Stage where
  elements : List Element
  recoveries : List Recovery
  /-- Where the token starts that ends the command. -/
  stop : Nat
  deriving DecidableEq, Repr

namespace Stage

def empty (i : Nat) : Stage := ⟨[], [], i⟩

/-- The stage with one more element in front, and the repairs made for it. -/
def cons (e : Element) (rs : List Recovery) (s : Stage) : Stage :=
  { s with elements := e :: s.elements, recoveries := rs ++ s.recoveries }

/-- The smallest span around the elements; an empty stage has the empty span where it ends. -/
def span (s : Stage) : Span :=
  match s.elements with
  | [] => Span.empty s.stop
  | e :: es => es.foldl (fun span e => span.cover e.span) e.span

def command (s : Stage) : Command :=
  ⟨s.elements.filterMap Element.word?, s.elements.filterMap Element.redirection?, s.span⟩

end Stage

/-! ### The whole line -/

/-- Puts an element in front of the first of some stages. -/
def consStage (e : Element) (rs : List Recovery) : Stage × List Stage → Stage × List Stage
  | (s, ss) => (s.cons e rs, ss)

/-- The first stage of a token list and the stages behind it. -/
def stagesOfTokens : List Token → Stage × List Stage
  | [] => (Stage.empty 0, [])
  | t :: ts =>
    match t.kind with
    | .endOfInput => (Stage.empty t.span.start, [])
    | .pipe =>
      let (s, ss) := stagesOfTokens ts
      (Stage.empty t.span.start, s :: ss)
    | .word => consStage (.word (Word.ofToken t)) (Recovery.ofToken t) (stagesOfTokens ts)
    | .operator op =>
      match ts with
      | w :: rest =>
        if op.takesWord && w.isWord then
          consStage (.redirection (Redirection.ofToken op t (Word.ofToken w)))
            (Recovery.ofToken w) (stagesOfTokens rest)
        else
          consStage (.redirection (Redirection.ofToken op t (Word.placeholder t.span.stop)))
            (Recovery.ofBareOperator op t) (stagesOfTokens (w :: rest))
      | [] =>
        consStage (.redirection (Redirection.ofToken op t (Word.placeholder t.span.stop)))
          (Recovery.ofBareOperator op t) (stagesOfTokens [])

def stagesOfLine (s : Text) : List Stage :=
  let (first, others) := stagesOfTokens (lex s)
  first :: others

/-- The repairs for empty commands; a command alone may be empty. -/
def emptyCommands (commands : List Command) : List Recovery :=
  if commands.length > 1 then
    (commands.filter Command.isEmpty).map fun c => .emptyCommand c.span
  else []

/-- From the start of the first token to the end of the last one before the end of the line. -/
def spanOfTokens (tokens : List Token) : Span :=
  let start := (tokens.head?.map fun t => t.span.start).getD 0
  let stop := ((tokens.filter fun t => !t.isEnd).getLast?.map fun t => t.span.stop).getD start
  ⟨start, stop⟩

/-- A pipeline and the repairs made while reading it. -/
structure Parsed where
  pipeline : Pipeline
  recoveries : List Recovery
  deriving DecidableEq, Repr

def parseLine (s : Text) : Parsed :=
  let stages := stagesOfLine s
  let commands := stages.map Stage.command
  ⟨⟨commands, spanOfTokens (lex s)⟩,
    stages.flatMap Stage.recoveries ++ emptyCommands commands⟩

def Parsed.output (p : Parsed) : ParseOutput := ⟨p.pipeline, p.recoveries.map Recovery.diagnostic⟩

/-- Reads a line and says what was missing or left open. -/
def parseWithDiagnostics (s : Text) : ParseOutput := (parseLine s).output

def parse (s : Text) : Pipeline := (parseLine s).pipeline

end ShellLine
