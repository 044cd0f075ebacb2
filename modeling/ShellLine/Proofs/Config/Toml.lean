import Mathlib.Data.List.Forall2
import ShellLine.Config.Format
import ShellLine.Proofs.Toml.Grammar
import ShellLine.Toml.Writer

/-! # Configurations in TOML

What is assumed of the functions that write and read configurations as TOML. A value
has the plainest string that can hold it, or the digits of its number, and null has no
form. Of reading, only documents of the grammar matter: where such a document gives the
fields of a configuration by their names, these are read, other fields being missing,
and entries with other names are passed over. -/

namespace ShellLine

/-! ### What is read -/

namespace Toml

/-- `Field entries name reads missing a`: the entry with the name is read as `a`, or there is none
and `a` is `missing`. -/
inductive Field {α : Type} (entries : Entries) (name : String) (reads : Toml → α → Prop)
    (missing : α) : α → Prop
  | found {t : Toml} {a : α} (entry : find? entries name.toList = some t) (read : reads t a) :
    Field entries name reads missing a
  | missing (absent : find? entries name.toList = none) : Field entries name reads missing missing

/-- What is read as a value that may be left out. -/
def Given {α : Type} (reads : Toml → α → Prop) (t : Toml) (a : Option α) : Prop :=
  ∃ b, a = some b ∧ reads t b

def IsBool (t : Toml) (b : Bool) : Prop := t = .bool b

def IsText (t : Toml) (s : Text) : Prop := t = .string s

def IsTexts (t : Toml) (names : List Text) : Prop := t = .array (names.map .string)

def IsFormat (t : Toml) (format : OutputFormat) : Prop := t = .string format.name

inductive IsValue : Toml → Value → Prop
  | bool (b : Bool) : IsValue (.bool b) (.bool b)
  | int (n : Int64) : IsValue (.int n) (.int n)
  | string (s : Text) : IsValue (.string s) (.string s)

/-- A table of variables. -/
def IsVariables (t : Toml) (vars : Bindings Value) : Prop :=
  ∃ entries es, t = .table .header entries ∧
    List.Forall₂ (fun d e => d.1 = e.1 ∧ IsValue d.2 e.2) entries es ∧ vars = .ofList es

/-- A table with a header, of which the entries are read. -/
def IsTable {α : Type} (reads : Entries → α → Prop) (t : Toml) (a : α) : Prop :=
  ∃ entries, t = .table .header entries ∧ reads entries a

end Toml

open Toml

/-- The settings are read from the entries. What the entries do not give is as in `default`. -/
structure Settings.ReadFrom (default : Settings) (entries : Entries) (s : Settings) : Prop where
  format : Field entries "format" IsFormat default.format s.format
  strict : Field entries "strict" IsBool default.strict s.strict
  logLevel : Field entries "log_level" IsText default.logLevel s.logLevel
  logFile : Field entries "log_file" IsText default.logFile s.logFile

structure Variables.ReadFrom (default : Variables) (entries : Entries) (v : Variables) : Prop where
  inheritEnv : Field entries "inherit_env" IsBool default.inheritEnv v.inheritEnv
  vars : Field entries "vars" IsVariables default.vars v.vars

structure Config.ReadFrom (entries : Entries) (c : Config) : Prop where
  settings : Field entries "settings" (IsTable (Settings.ReadFrom defaultSettings))
    defaultSettings c.settings
  context : Field entries "context" (IsTable (Variables.ReadFrom defaultVariables))
    defaultVariables c.context

structure SettingsOverlay.ReadFrom (entries : Entries) (o : SettingsOverlay) : Prop where
  format : Field entries "format" (Given IsFormat) none o.format
  strict : Field entries "strict" (Given IsBool) none o.strict
  logLevel : Field entries "log_level" (Given IsText) none o.logLevel
  logFile : Field entries "log_file" (Given IsText) none o.logFile

structure VariablesOverlay.ReadFrom (entries : Entries) (o : VariablesOverlay) : Prop where
  replace : Field entries "replace" IsBool false o.replace
  inheritEnv : Field entries "inherit_env" (Given IsBool) none o.inheritEnv
  vars : Field entries "vars" IsVariables .empty o.vars
  removed : Field entries "remove_vars" IsTexts [] o.removed

structure Overlay.ReadFrom (entries : Entries) (o : Overlay) : Prop where
  settings : Field entries "settings" (IsTable SettingsOverlay.ReadFrom) .empty o.settings
  context : Field entries "context" (IsTable VariablesOverlay.ReadFrom) .empty o.context

/-! ### TOML -/

/-- What is known of functions that write and read TOML. A document is written in the plainest
strings and keys, and nothing is written if a value has no form. Where a document of the grammar
gives the fields of a configuration or an overlay, these are read. -/
structure ConfigFormat.IsToml (f : ConfigFormat) : Prop where
  key : ∀ s, f.key s = renderKey s
  null : f.value? .null = none
  bool : ∀ b, f.value? (.bool b) = some (renderBool b)
  int : ∀ n, f.value? (.int n) = some (Text.ofInt n.toInt)
  float : ∀ x, (f.value? (.float x)).isSome = true
  string : ∀ s, f.value? (.string s) = some (renderString s)
  layout : ∀ c, f.write? c = (lines? f.key f.value? c).map Text.unlines
  readsConfig : ∀ {lines : List Text} {d : Draft} {c : Config},
    Document ⟨[], []⟩ lines d → c.ReadFrom d.entries → f.config? (Text.unlines lines) = some c
  readsOverlay : ∀ {lines : List Text} {d : Draft} {o : Overlay},
    Document ⟨[], []⟩ lines d → o.ReadFrom d.entries → f.overlay? (Text.unlines lines) = some o

end ShellLine
