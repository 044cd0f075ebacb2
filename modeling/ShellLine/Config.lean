import ShellLine.Bindings
import ShellLine.Value

/-! # Configuration

A configuration says how lines are shown and which variables there are. An overlay
changes a configuration: each setting it gives replaces the old one, and variables
are removed, replaced and added. -/

namespace ShellLine

/-- How a line is shown. -/
inductive OutputFormat
  /-- The dump of its pipeline. -/
  | tree
  /-- Its pipeline as a JSON value. -/
  | json
  /-- Its expanded arguments and redirections. -/
  | argv
  /-- Its tokens as a JSON value. -/
  | tokens
  deriving DecidableEq, Repr

namespace OutputFormat

def all : List OutputFormat := [tree, json, argv, tokens]

def name : OutputFormat → Text
  | tree => "tree".toList
  | json => "json".toList
  | argv => "argv".toList
  | tokens => "tokens".toList

def ofName? (s : Text) : Option OutputFormat := all.find? fun f => f.name = s

theorem ofName?_name (f : OutputFormat) : ofName? f.name = some f := by cases f <;> decide

/-- A text names a format exactly if it is the name of one. -/
theorem ofName?_eq_some_iff {s : Text} {f : OutputFormat} : ofName? s = some f ↔ s = f.name := by
  constructor
  · intro h
    have := List.find?_some h
    simpa [eq_comm] using this
  · rintro rfl
    exact ofName?_name f

end OutputFormat

/-- How lines are shown and recorded. -/
structure Settings where
  format : OutputFormat
  /-- Whether a line that needed a repair counts as a failure. -/
  strict : Bool
  logLevel : Text
  /-- The file for log records; without a name there is none. -/
  logFile : Text
  deriving DecidableEq, Repr

/-- The variables of expansion. -/
structure Variables where
  /-- Whether the environment of the process is looked up behind the variables. -/
  inheritEnv : Bool
  vars : Bindings Value
  deriving DecidableEq

/-- A configuration. -/
structure Config where
  settings : Settings
  context : Variables
  deriving DecidableEq

namespace Config

/-- The settings of a configuration that gives none. -/
def defaultSettings : Settings := ⟨.tree, false, "warn".toList, []⟩

/-- The variables of a configuration that gives none. -/
def defaultVariables : Variables := ⟨true, .empty⟩

/-- The configuration that no field is given of. -/
def default : Config := ⟨defaultSettings, defaultVariables⟩

end Config

/-! ### Overlays -/

/-- The settings that an overlay gives. -/
structure SettingsOverlay where
  format : Option OutputFormat
  strict : Option Bool
  logLevel : Option Text
  logFile : Option Text
  deriving DecidableEq, Repr

/-- What an overlay does to variables. -/
structure VariablesOverlay where
  /-- Whether all old variables are dropped. -/
  replace : Bool
  inheritEnv : Option Bool
  vars : Bindings Value
  /-- Names that are dropped before the new variables are added. -/
  removed : List Text
  deriving DecidableEq

/-- Changes of a configuration. -/
structure Overlay where
  settings : SettingsOverlay
  context : VariablesOverlay
  deriving DecidableEq

namespace SettingsOverlay

def empty : SettingsOverlay := ⟨none, none, none, none⟩

def apply (o : SettingsOverlay) (s : Settings) : Settings :=
  ⟨o.format.getD s.format, o.strict.getD s.strict, o.logLevel.getD s.logLevel,
    o.logFile.getD s.logFile⟩

end SettingsOverlay

namespace VariablesOverlay

def empty : VariablesOverlay := ⟨false, none, .empty, []⟩

def applyVars (o : VariablesOverlay) (vars : Bindings Value) : Bindings Value :=
  if o.replace then o.vars else (vars.filter fun name => !o.removed.contains name).union o.vars

def apply (o : VariablesOverlay) (v : Variables) : Variables :=
  ⟨o.inheritEnv.getD v.inheritEnv, o.applyVars v.vars⟩

end VariablesOverlay

namespace Overlay

def empty : Overlay := ⟨.empty, .empty⟩

def apply (o : Overlay) (c : Config) : Config :=
  ⟨o.settings.apply c.settings, o.context.apply c.context⟩

end Overlay

end ShellLine
