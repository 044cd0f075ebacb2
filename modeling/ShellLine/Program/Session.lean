import ShellLine.Argument
import ShellLine.Log
import ShellLine.Pipeline.Dump
import ShellLine.Program.Options
import ShellLine.Structured

/-! # Reading lines one by one

Every line gives a report: what is shown, what is recorded, and whether a repair was
needed. Reports of different lines do not depend on each other, so the report of
many lines is theirs put together, up to the first line that is no text. -/

namespace ShellLine

/-- How lines are shown. -/
structure Session where
  format : OutputFormat
  lookup : Lookup
  /-- An argument in quotes, unless it cannot be quoted. -/
  quote? : Text → Option Text

/-- What becomes of lines. -/
structure Report where
  output : Text
  records : List LogRecord
  /-- Whether something was missing or left open. -/
  repaired : Bool
  deriving DecidableEq, Repr

namespace Report

def empty : Report := ⟨[], [], false⟩

def append (a b : Report) : Report :=
  ⟨a.output ++ b.output, a.records ++ b.records, a.repaired || b.repaired⟩

instance : Append Report := ⟨append⟩

def concat (reports : List Report) : Report := reports.foldr append empty

theorem empty_append (a : Report) : empty.append a = a := by simp [append, empty]

theorem append_assoc (a b c : Report) : (a.append b).append c = a.append (b.append c) := by
  simp [append, Bool.or_assoc]

theorem concat_append (as bs : List Report) :
    concat (as ++ bs) = (concat as).append (concat bs) := by
  induction as with
  | nil => exact (empty_append _).symm
  | cons a as ih =>
    show a.append (concat (as ++ bs)) = (a.append (concat as)).append (concat bs)
    rw [ih, append_assoc]

end Report

namespace Diagnostic

def record (line : Text) (d : Diagnostic) : LogRecord :=
  ⟨.warn, .program, line ++ ": ".toList ++ d.render⟩

end Diagnostic

namespace Session

def display (s : Session) (line : Text) (o : ParseOutput) : Text :=
  match s.format with
  | .tree => o.dump
  | .json => o.toJson.render ++ ['\n']
  | .argv => Text.unlines ((o.pipeline.expand s.lookup).mapIdx (ExpandedCommand.renderLine s.quote?))
  | .tokens => (Json.ofList Token.toJson (lex line)).render ++ ['\n']

def displayRecords (s : Session) (line : Text) (o : ParseOutput) : List LogRecord :=
  if s.format = .argv then
    o.diagnostics.map (Diagnostic.record line) ++ o.pipeline.expansionRecords s.lookup
  else []

/-- The report of a line; a line of white space is passed over. -/
def report (s : Session) (line : Text) : Report :=
  if Text.isWhite line then .empty
  else
    let p := parseLine line
    ⟨s.display line p.output, p.records line ++ s.displayRecords line p.output, !p.output.isClean⟩

def reportAll (s : Session) (lines : List Text) : Report := .concat (lines.map s.report)

/-- What two lists of lines give together is what they give one after the other. -/
theorem reportAll_append (s : Session) (as bs : List Text) :
    s.reportAll (as ++ bs) = (s.reportAll as).append (s.reportAll bs) := by
  rw [reportAll, List.map_append, Report.concat_append]
  rfl

end Session

/-! ### Lines of a stream -/

/-- The lines of a stream of bytes. Each ends with a line feed, which a carriage return may
precede; the last one need not. -/
def splitLines : Bytes → List Bytes
  | [] => []
  | b :: bytes =>
    if b = 10 then [] :: splitLines bytes
    else if b = 13 ∧ bytes.head? = some 10 then splitLines bytes
    else
      match splitLines bytes with
      | [] => [[b]]
      | line :: lines => (b :: line) :: lines

/-- The lines up to the first that is no text, and whether all of them are texts. -/
def decodeLines : List Bytes → List Text × Bool
  | [] => ([], true)
  | bytes :: rest =>
    match Text.decode? bytes with
    | none => ([], false)
    | some line =>
      let (lines, valid) := decodeLines rest
      (line :: lines, valid)

end ShellLine
