import ShellLine.Config
import ShellLine.Text.Utf8

/-! # Formats of configurations

How configurations are written and read is a matter of its own: here it is any record of
functions. The program says which fields are written, which text goes with it, and how
the configuration of a run comes from that text and a file. -/

namespace ShellLine

/-- Functions that write and read configurations. -/
structure ConfigFormat where
  key : Text → Text
  /-- A value as it stands behind its key, unless it has no form. -/
  value? : Value → Option Text
  /-- The text of a configuration, unless it has none. -/
  write? : Config → Option Text
  /-- Reads a configuration. Fields may be left out. -/
  config? : Text → Option Config
  overlay? : Text → Option Overlay

/-! ### Loading -/

/-- What became of the configuration file. -/
structure ConfigLoad where
  config : Config
  /-- Whether there was a text that is no overlay. -/
  refused : Bool
  deriving DecidableEq

/-- The lines of the configuration that goes with the program. -/
def Config.defaultLines : List Text :=
  ["# shline default configuration.",
   "#",
   "# A user overlay at ~/.config/shline/config.toml (or --config PATH) is merged",
   "# on top of this file: scalars override, [context.vars] extends, and",
   "# `remove_vars` subtracts. Set `replace = true` in [context] to drop the",
   "# default variables entirely.",
   "",
   "[settings]",
   "# Output format: tree | json | argv | tokens",
   "format = \"tree\"",
   "# Exit with status 1 when any line needed parser recovery.",
   "strict = false",
   "# off | error | warn | info | debug | trace",
   "log_level = \"warn\"",
   "# Append log records to this file as well as stderr. Empty disables it.",
   "log_file = \"\"",
   "",
   "[context]",
   "# Resolve variables from the process environment after [context.vars].",
   "inherit_env = true",
   "",
   "[context.vars]"].map String.toList

def Config.defaultText : Text := Text.unlines defaultLines

namespace ConfigFormat

variable (f : ConfigFormat)

/-- A configuration under the overlay of a text. A text that is no overlay changes nothing. -/
def underText (c : Config) (s : Text) : ConfigLoad :=
  match f.overlay? s with
  | some o => ⟨o.apply c, false⟩
  | none => ⟨c, true⟩

/-- A configuration with a file as its overlay. A file that does not exist or is no text is the same
as none. -/
def underFile (c : Config) (file : Option Bytes) : ConfigLoad :=
  match file.bind Text.decode? with
  | some s => f.underText c s
  | none => ⟨c, false⟩

/-- The configuration that goes with the program, with a file as its overlay. It must be readable. -/
def load? (file : Option Bytes) : Option ConfigLoad :=
  (f.config? Config.defaultText).map fun c => f.underFile c file

end ConfigFormat

/-! ### What is written -/

namespace Settings

/-- The fields with their values, in the order in which they are written. -/
def fields (s : Settings) : List (Text × Value) :=
  [("format".toList, .string s.format.name), ("strict".toList, .bool s.strict),
    ("log_level".toList, .string s.logLevel), ("log_file".toList, .string s.logFile)]

end Settings

namespace ConfigFormat

variable (key : Text → Text) (value? : Value → Option Text)

def entryLine (name value : Text) : Text := key name ++ " = ".toList ++ value

/-- The line of a field. -/
def fieldLine? (e : Text × Value) : Option Text := (value? e.2).map (entryLine key e.1)

/-- The lines of a configuration: each table with its header, and an empty line between tables. -/
def lines? (c : Config) : Option (List Text) := do
  let settings ← c.settings.fields.mapM (fieldLine? key value?)
  let inheritEnv ← fieldLine? key value? ("inherit_env".toList, .bool c.context.inheritEnv)
  let vars ← c.context.vars.entries.mapM (fieldLine? key value?)
  return "[settings]".toList :: settings ++
    [[], "[context]".toList, inheritEnv, [], "[context.vars]".toList] ++ vars

end ConfigFormat

end ShellLine
