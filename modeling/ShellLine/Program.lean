import ShellLine.Config.Toml
import ShellLine.Program.FileStore
import ShellLine.Program.Session

/-! # The program

Arguments are read first, then the configuration; then the log file is opened, and
then the configuration is shown or the lines are read. `Program.run` says what a run
shows and which files it leaves. -/

namespace ShellLine

/-- How a run ends. -/
inductive ExitStatus
  | success
  /-- A line was no text, or needed a repair although repairs count as failures. -/
  | failure
  /-- The arguments were refused. -/
  | misuse
  deriving DecidableEq, Repr

namespace ExitStatus

def code : ExitStatus → UInt8
  | success => 0
  | failure => 1
  | misuse => 2

end ExitStatus

namespace Program

def usage : Text :=
  Text.join ['\n']
    (["usage: shline [OPTIONS] [--] [COMMAND...]",
      "",
      "Parses COMMAND (joined with spaces), or each line of stdin.",
      "",
      "options:",
      "  --config PATH        merge PATH over the defaults instead of ~/.config/shline/config.toml",
      "  --format FORMAT      tree | json | argv | tokens",
      "  --json               same as --format json",
      "  --strict             exit 1 if any line needed parser recovery",
      "  --set NAME=VALUE     define a variable for argv expansion (repeatable)",
      "  --dump-config        print the merged configuration and exit",
      "  -h, --help           print this help"].map String.toList)

def errorLine (message : Text) : Text := "shline: ".toList ++ message ++ ['\n']

/-- Where the configuration lies unless the arguments say otherwise. -/
def userConfigPath (home : Text) : Text := expandTilde home "~/.config/shline/config.toml".toList

/-- What is said of a configuration file that is no overlay. -/
def refusedConfig (path : Text) : Text :=
  errorLine ("config parse error in ".toList ++ path ++ ": not a configuration".toList)

/-- What is said of a line that is no text. -/
def invalidLine : Text := "stream did not contain valid UTF-8".toList

/-! ### Variables -/

/-- The variables of the configuration with those of the arguments over them. The environment lies
below, if the configuration says so. -/
def buildContext (config : Config) (overrides : List (Text × Text)) (environment : Bindings Bytes) :
    Context :=
  let vars := config.context.vars.insertAll (overrides.map fun (name, s) => (name, .string s))
  if config.context.inheritEnv then .layered (.values vars) (.environment environment)
  else .values vars

/-! ### Lines -/

/-- What is shown, recorded and told of all lines, and how it ends. -/
structure LineRun where
  report : Report
  errors : Text
  status : ExitStatus
  deriving DecidableEq, Repr

/-- Reads lines; `valid` says whether there are no others that are no text. -/
def runLines (session : Session) (strict : Bool) (lines : List Text) (valid : Bool) : LineRun :=
  let report := session.reportAll lines
  if !valid then ⟨report, errorLine invalidLine, .failure⟩
  else ⟨report, [], if strict && report.repaired then .failure else .success⟩

/-- The command of the arguments as one line, or else the lines of the input up to the first that
is no text; and whether there is no such line. -/
def linesOf (options : Options) (input : Bytes) : List Text × Bool :=
  if options.command = [] then decodeLines (splitLines input)
  else ([Text.join [' '] options.command], true)

/-- The session that options and a configuration ask for. -/
def sessionOf (options : Options) (config : Config) (environment : Bindings Bytes) : Session :=
  ⟨options.format.getD config.settings.format, buildContext config options.vars environment,
    quoteArgument?⟩

/-- What a run does once the configuration is known: it shows the configuration, or reads lines. -/
def runConfigured (options : Options) (config : Config) (environment : Bindings Bytes)
    (input : Bytes) : LineRun :=
  if options.dumpConfig then
    match config.toToml? with
    | some s => ⟨⟨s, [], false⟩, [], .success⟩
    | none =>
      ⟨.empty, errorLine ("cannot render config: ".toList ++ Config.tomlError), .failure⟩
  else
    let (lines, valid) := linesOf options input
    runLines (sessionOf options config environment) (options.strict || config.settings.strict)
      lines valid

/-! ### A whole run -/

/-- Everything a run depends on. -/
structure Invocation where
  args : List Text
  home : Text
  /-- The directory in which the program runs. -/
  here : Path
  environment : Bindings Bytes
  input : Bytes
  files : FileStore
  deriving DecidableEq

/-- Everything a run leaves. -/
structure Outcome where
  status : ExitStatus
  output : Text
  errors : Text
  files : FileStore
  deriving DecidableEq, Repr

/-- The records that a level keeps, as the lines of a log. -/
def logLines (level : LogLevel) (records : List LogRecord) : List Text :=
  (records.filter (LogRecord.isKept level)).map LogRecord.line

/-- Opens the log file of the settings, if they name one that can be opened. -/
def openLog (i : Invocation) (settings : Settings) : FileStore × Option Path :=
  if settings.logFile = [] then (i.files, none)
  else i.files.openForAppend i.here (expandTilde i.home settings.logFile)

/-- Runs the program with options that ask for more than help, once the configuration file at a
path is loaded. -/
def runLoaded (i : Invocation) (options : Options) (path : Text) (loaded : ConfigLoad) : Outcome :=
  let settings := loaded.config.settings
  let (files, log) := openLog i settings
  let r := runConfigured options loaded.config i.environment i.input
  let logged := Text.unlines (logLines (LogLevel.ofName settings.logLevel) r.report.records)
  let files := match log with
    | some p => files.append p (Text.encode logged)
    | none => files
  ⟨r.status, r.report.output,
    (if loaded.refused then refusedConfig path else []) ++ logged ++ r.errors, files⟩

def runOptions (i : Invocation) (options : Options) : Outcome :=
  let path := options.config.getD (userConfigPath i.home)
  runLoaded i options path (Config.load (i.files.read i.here path))

def run (i : Invocation) : Outcome :=
  match Options.parse i.home i.args with
  | .error e => ⟨.misuse, [], errorLine (e.message ++ '\n' :: usage), i.files⟩
  | .ok options =>
    if options.help then ⟨.success, usage ++ ['\n'], [], i.files⟩
    else runOptions i options

end Program

end ShellLine
