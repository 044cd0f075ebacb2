import ShellLine.Config.Format
import ShellLine.Toml.Reader

/-! # Configurations and overlays in TOML

A configuration or an overlay is read from the tables `settings` and `context` of a
document. Whatever else the document holds is passed over; whatever is there must be of
the right kind, or the document is refused as a whole. -/

namespace ShellLine

namespace Toml

/-- The key of the only entry of a date that is taken for a table. -/
def datetimeKey : Text := "$__toml_private_datetime".toList

def asBool? : Toml → Option Bool
  | bool b => some b
  | _ => none

def asText? : Toml → Option Text
  | string s => some s
  | _ => none

def asEntries? : Toml → Option Entries
  | table _ entries => some entries
  | datetime s => some [(datetimeKey, string s)]
  | _ => none

def asItems? : Toml → Option (List Toml)
  | array items => some items
  | tables items => some (items.map (table .header))
  | _ => none

def asValue? : Toml → Option Value
  | bool b => some (.bool b)
  | int n => some (.int n)
  | float x => some (.float x)
  | string s => some (.string s)
  | _ => none

def isEmpty : Toml → Bool
  | array items => items.isEmpty
  | table _ entries => entries.isEmpty
  | tables items => items.isEmpty
  | _ => false

/-- A format: its name, or a table with its name as the only key and nothing in it. -/
def asFormat? : Toml → Option OutputFormat
  | string s => OutputFormat.ofName? s
  | table _ [(name, v)] => if v.isEmpty then OutputFormat.ofName? name else none
  | _ => none

def asTexts? (v : Toml) : Option (List Text) := do
  let items ← v.asItems?
  items.mapM asText?

def asVariables? (v : Toml) : Option (Bindings Value) := do
  let entries ← v.asEntries?
  let vars ← entries.mapM fun (name, v) => v.asValue?.map fun v => (name, v)
  return .ofList vars

/-- What an entry gives, if there is one; it must not be of another kind. -/
def optional {α : Type} (read : Toml → Option α) (entries : Entries) (key : String) :
    Option (Option α) :=
  match find? entries key.toList with
  | none => some none
  | some v => (read v).map some

end Toml

namespace SettingsOverlay

/-- The settings of a table, or of a list of all four. -/
def ofToml? (v : Toml) : Option SettingsOverlay :=
  match v.asEntries? with
  | some entries => do
    let format ← Toml.optional Toml.asFormat? entries "format"
    let strict ← Toml.optional Toml.asBool? entries "strict"
    let logLevel ← Toml.optional Toml.asText? entries "log_level"
    let logFile ← Toml.optional Toml.asText? entries "log_file"
    return ⟨format, strict, logLevel, logFile⟩
  | none => do
    let items ← v.asItems?
    match items with
    | format :: strict :: logLevel :: logFile :: _ => do
      let format ← format.asFormat?
      let strict ← strict.asBool?
      let logLevel ← logLevel.asText?
      let logFile ← logFile.asText?
      return ⟨some format, some strict, some logLevel, some logFile⟩
    | _ => none

end SettingsOverlay

namespace VariablesOverlay

/-- What is done to variables, from a table or from a list of at least two fields. -/
def ofToml? (v : Toml) : Option VariablesOverlay :=
  match v.asEntries? with
  | some entries => do
    let replace ← Toml.optional Toml.asBool? entries "replace"
    let inheritEnv ← Toml.optional Toml.asBool? entries "inherit_env"
    let vars ← Toml.optional Toml.asVariables? entries "vars"
    let removed ← Toml.optional Toml.asTexts? entries "remove_vars"
    return ⟨replace.getD false, inheritEnv, vars.getD .empty, removed.getD []⟩
  | none => do
    let items ← v.asItems?
    match items with
    | replace :: inheritEnv :: rest => do
      let replace ← replace.asBool?
      let inheritEnv ← inheritEnv.asBool?
      let vars ← (rest[0]?.map Toml.asVariables?).getD (some .empty)
      let removed ← (rest[1]?.map Toml.asTexts?).getD (some [])
      return ⟨replace, some inheritEnv, vars, removed⟩
    | _ => none

end VariablesOverlay

namespace Overlay

def ofEntries? (entries : Toml.Entries) : Option Overlay := do
  let settings ← Toml.optional SettingsOverlay.ofToml? entries "settings"
  let context ← Toml.optional VariablesOverlay.ofToml? entries "context"
  return ⟨settings.getD .empty, context.getD .empty⟩

def ofText? (s : Text) : Option Overlay := (Toml.read s).bind ofEntries?

end Overlay

/-! ### Whole configurations -/

namespace Settings

def ofToml? (v : Toml) : Option Settings := do
  let entries ← v.asEntries?
  let format ← Toml.optional Toml.asFormat? entries "format"
  let strict ← Toml.optional Toml.asBool? entries "strict"
  let logLevel ← Toml.optional Toml.asText? entries "log_level"
  let logFile ← Toml.optional Toml.asText? entries "log_file"
  let d := Config.defaultSettings
  return ⟨format.getD d.format, strict.getD d.strict, logLevel.getD d.logLevel,
    logFile.getD d.logFile⟩

end Settings

namespace Variables

def ofToml? (v : Toml) : Option Variables := do
  let entries ← v.asEntries?
  let inheritEnv ← Toml.optional Toml.asBool? entries "inherit_env"
  let vars ← Toml.optional Toml.asVariables? entries "vars"
  let d := Config.defaultVariables
  return ⟨inheritEnv.getD d.inheritEnv, vars.getD d.vars⟩

end Variables

namespace Config

def ofEntries? (entries : Toml.Entries) : Option Config := do
  let settings ← Toml.optional Settings.ofToml? entries "settings"
  let context ← Toml.optional Variables.ofToml? entries "context"
  return ⟨settings.getD defaultSettings, context.getD defaultVariables⟩

def ofText? (s : Text) : Option Config := (Toml.read s).bind ofEntries?

end Config

end ShellLine
