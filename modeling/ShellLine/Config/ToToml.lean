import ShellLine.Config.Format
import ShellLine.Toml.Writer

/-! # Configurations as TOML

A configuration is written so that reading it as an overlay gives it back. Null has
no TOML form, so a configuration with a null variable is not written at all. -/

namespace ShellLine

def Value.toToml? : Value → Option Text
  | null => none
  | bool b => some (Toml.renderBool b)
  | int n => some (Text.ofInt n.toInt)
  | float x => some (Toml.renderFloat x)
  | string s => some (Toml.renderString s)

def Config.tomlError : Text := "unsupported unit type".toList

end ShellLine
