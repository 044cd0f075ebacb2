import ShellLine.Program
import Std.Time

/-! # The command

Asks the system for what a run depends on, and does what the run says. Of the
environment only the variables that lines refer to are asked for, as no others can
matter. -/

namespace ShellLine.Main

open Program

/-- The names that the lines of a run refer to. -/
def namesIn (lines : List Text) : List Text :=
  lines.flatMap fun line => (parse line).commands.flatMap fun c =>
    (c.words ++ c.redirections.map Redirection.target).flatMap fun w => w.parts.filterMap fun
      | .text .. => none
      | .reference x _ _ => some x

def environmentOf (names : List Text) : IO (Bindings Bytes) :=
  names.foldlM
    (fun vars name => do
      if Context.isEnvironmentName name then
        match ← IO.getEnv (String.ofList name) with
        | some value => return vars.insert name (Text.encode value.toList)
        | none => return vars
      else return vars)
    .empty

/-- The content of a file, if it can be read. -/
def readFile (path : Text) : IO (Option Bytes) :=
  try
    let content ← IO.FS.readBinFile (String.ofList path)
    return some content.toList
  catch _ => return none

def directoryOf (path : Text) : Text := (path.reverse.dropWhile (· ≠ '/')).reverse

/-- Opens a file for appending, and makes its directory; a file that cannot be opened is done
without. -/
def openLogFile (path : Text) : IO (Option IO.FS.Handle) :=
  if path = [] then return none
  else
    try
      let directory := directoryOf path
      unless directory.isEmpty do
        IO.FS.createDirAll (String.ofList directory)
      return some (← IO.FS.Handle.mk (String.ofList path) .append)
    catch _ => return none

def timeStamp : IO Text := do
  let now ← Std.Time.Timestamp.now
  let time := Std.Time.DateTime.ofTimestamp now Std.Time.TimeZone.ZoneRules.UTC
  return (time.format "uuuu-MM-dd'T'HH:mm:ss'Z '").toList

def write (h : IO.FS.Stream) (s : Text) : IO Unit := do
  h.putStr (String.ofList s)
  h.flush

/-- Runs the program with options that ask for more than help. -/
def runOptions (home : Text) (options : Options) : IO ExitStatus := do
  let errors ← IO.getStderr
  let path := options.config.getD (userConfigPath home)
  let loaded := Config.load (← readFile path)
  if loaded.refused then write errors (refusedConfig path)
  let settings := loaded.config.settings
  let log ← openLogFile (expandTilde home settings.logFile)
  let input ←
    if options.dumpConfig ∨ options.command ≠ [] then pure []
    else do
      let content ← IO.FS.Stream.readBinToEnd (← IO.getStdin)
      pure content.toList
  let environment ← environmentOf (namesIn (linesOf options input).1)
  let r := runConfigured options loaded.config environment input
  for line in logLines (LogLevel.ofName settings.logLevel) r.report.records do
    let stamped := (← timeStamp) ++ line ++ ['\n']
    write errors stamped
    if let some h := log then
      h.putStr (String.ofList stamped)
  write (← IO.getStdout) r.report.output
  write errors r.errors
  return r.status

def run (args : List Text) : IO ExitStatus := do
  let home := ((← IO.getEnv "HOME").getD "").toList
  match Options.parse home args with
  | .error e =>
    write (← IO.getStderr) (errorLine (e.message ++ '\n' :: usage))
    return .misuse
  | .ok options =>
    if options.help then
      write (← IO.getStdout) (usage ++ ['\n'])
      return .success
    else runOptions home options

end ShellLine.Main

def main (args : List String) : IO UInt32 := do
  let status ← ShellLine.Main.run (args.map String.toList)
  return status.code.toUInt32
