import ShellLine.Expansion
import ShellLine.Pipeline.Parser
import ShellLine.Text.Blank
import ShellLine.Text.Quoted

/-! # Log records

Every repair and every variable without a text leaves a record, and so does every
line that was read. A record says how serious it is and where it comes from; a
level keeps the records that are at least as serious as itself. -/

namespace ShellLine

/-- How much is kept, from nothing to everything; also how serious a record is. -/
inductive LogLevel
  | off
  | error
  | warn
  | info
  | debug
  | trace
  deriving DecidableEq, Repr

namespace LogLevel

/-- All levels, the one that keeps least in front. -/
def all : List LogLevel := [off, error, warn, info, debug, trace]

def name : LogLevel → Text
  | off => "OFF".toList
  | error => "ERROR".toList
  | warn => "WARN".toList
  | info => "INFO".toList
  | debug => "DEBUG".toList
  | trace => "TRACE".toList

def rank : LogLevel → Nat
  | off => 0
  | error => 1
  | warn => 2
  | info => 3
  | debug => 4
  | trace => 5

/-- The level with a name; white space around it and the case of its letters do not count, and
what is no name means `warn`. -/
def ofName (s : Text) : LogLevel :=
  (all.find? fun level => level.name = (Text.trim s).map Char.toUpper).getD warn

theorem ofName_name (level : LogLevel) : ofName level.name = level := by
  cases level <;> decide

end LogLevel

/-- The part of the program that a record comes from. -/
inductive LogOrigin
  | parser
  | expansion
  | lines
  | program
  deriving DecidableEq, Repr

namespace LogOrigin

def name : LogOrigin → Text
  | parser => "shline::parse::parser".toList
  | expansion => "shline::expand".toList
  | lines => "shline::logging".toList
  | program => "shline".toList

end LogOrigin

/-- One record. -/
structure LogRecord where
  level : LogLevel
  origin : LogOrigin
  message : Text
  deriving DecidableEq, Repr

namespace LogRecord

def isKept (limit : LogLevel) (r : LogRecord) : Bool := r.level.rank ≤ limit.rank

/-- The record as a line of a log, without its time. The number of the thread is added to what
only matters while looking for a fault. -/
def line (r : LogRecord) : Text :=
  '[' :: r.level.name ++ "] ".toList ++
    (if LogLevel.debug.rank ≤ r.level.rank then "(1) ".toList else []) ++
    r.origin.name ++ ": ".toList ++ r.message

end LogRecord

namespace Recovery

def record : Recovery → LogRecord
  | missingTarget op span =>
    ⟨.debug, .parser,
      op.symbol ++ " at ".toList ++ span.render ++ " has no target word, using placeholder".toList⟩
  | unusableDup source span =>
    ⟨.debug, .parser,
      source ++ " at ".toList ++ span.render ++ ": ".toList ++ (dupAnomaly source).message⟩
  | openWord raw d => ⟨.trace, .parser, d.render ++ " in word ".toList ++ Text.quoted raw⟩
  | emptyCommand span => ⟨.debug, .parser, "empty pipeline stage at ".toList ++ span.render⟩

end Recovery

namespace ParseOutput

/-- What is said about the diagnostics of a line. -/
def summary (o : ParseOutput) : Text :=
  if o.isClean then "clean".toList
  else Text.join "; ".toList (o.diagnostics.map Diagnostic.render)

/-- Number of characters of a line that its record keeps. -/
def recordedLength : Nat := 200

def record (line : Text) (o : ParseOutput) : LogRecord :=
  ⟨.info, .lines,
    line.take recordedLength ++ '\t' :: Text.ofNat o.pipeline.commands.length ++
      " command(s)\t".toList ++ o.summary⟩

end ParseOutput

namespace Parsed

/-- The records of reading a line: its repairs, then the line itself. -/
def records (line : Text) (p : Parsed) : List LogRecord :=
  p.recoveries.map Recovery.record ++ [p.output.record line]

end Parsed

def Pipeline.expansionRecords (lookup : Lookup) (p : Pipeline) : List LogRecord :=
  (p.unset lookup).map fun x => ⟨.trace, .expansion, '$' :: x ++ " is unset".toList⟩

end ShellLine
