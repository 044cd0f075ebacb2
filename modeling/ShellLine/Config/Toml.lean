import ShellLine.Config.FromToml
import ShellLine.Config.ToToml

/-! # The format of the program

The program keeps configurations in TOML. The text that goes with it is readable, so a run
always has a configuration. -/

namespace ShellLine.Config

/-- The functions for TOML; what is written is what the functions for values and keys give. -/
def toml : ConfigFormat where
  key := Toml.renderKey
  value? := Value.toToml?
  write? c := (ConfigFormat.lines? Toml.renderKey Value.toToml? c).map Text.unlines
  config? := ofText?
  overlay? := Overlay.ofText?

theorem isSome_defaultText : (toml.config? defaultText).isSome = true := by
  simp only [defaultText, defaultLines, List.map_cons, List.map_nil]
  -- the characters of a literal are slow to compute from its bytes
  repeat rw [String.toList_ofList]
  decide +kernel

/-- The configuration that goes with the program. -/
def shipped : Config := (toml.config? defaultText).get isSome_defaultText

/-- The configuration of a run. -/
def load (file : Option Bytes) : ConfigLoad := toml.underFile shipped file

theorem load?_toml (file : Option Bytes) : toml.load? file = some (load file) := by
  rw [ConfigFormat.load?, ← Option.some_get isSome_defaultText, Option.map_some, load, shipped]

def toToml? (c : Config) : Option Text := toml.write? c

end ShellLine.Config
