import ShellLine.Config

/-! # Options of the command line

Options stand in front of the command. The value of an option is always the next
argument, whatever it looks like. The command starts behind `--`, or at the first
argument that is no option, and nothing in it is taken for an option. -/

namespace ShellLine

/-- A path with the home directory in place of a leading tilde. -/
def expandTilde (home : Text) (path : Text) : Text :=
  match path with
  | ['~'] => home
  | '~' :: '/' :: rest => home ++ '/' :: rest
  | path => path

/-- What the arguments ask for. -/
structure Options where
  config : Option Text
  format : Option OutputFormat
  strict : Bool
  vars : List (Text × Text)
  dumpConfig : Bool
  help : Bool
  command : List Text
  deriving DecidableEq, Repr

/-- Why arguments are refused. -/
inductive UsageError
  | missingPath
  | missingFormat
  | unknownFormat (name : Text)
  | missingPair
  | notPair (arg : Text)
  | unknownOption (arg : Text)
  deriving DecidableEq, Repr

namespace UsageError

def message : UsageError → Text
  | missingPath => "--config needs a path".toList
  | missingFormat => "--format needs a value".toList
  | unknownFormat name => "unknown format: ".toList ++ name
  | missingPair => "--set needs NAME=VALUE".toList
  | notPair arg => "--set expects NAME=VALUE, got ".toList ++ arg
  | unknownOption arg => "unknown option: ".toList ++ arg

end UsageError

namespace Options

def none : Options := ⟨.none, .none, false, [], false, false, []⟩

/-- Reads arguments, where `o` is what those before ask for. -/
def parseFrom (home : Text) (o : Options) : List Text → Except UsageError Options
  | [] => .ok o
  | arg :: args =>
    if arg = "--config".toList then
      match args with
      | [] => .error .missingPath
      | path :: args => parseFrom home { o with config := some (expandTilde home path) } args
    else if arg = "--format".toList then
      match args with
      | [] => .error .missingFormat
      | name :: args =>
        match OutputFormat.ofName? name with
        | some f => parseFrom home { o with format := some f } args
        | .none => .error (.unknownFormat name)
    else if arg = "--json".toList then parseFrom home { o with format := some .json } args
    else if arg = "--strict".toList then parseFrom home { o with strict := true } args
    else if arg = "--set".toList then
      match args with
      | [] => .error .missingPair
      | pair :: args =>
        match Text.splitAtFirst '=' pair with
        | some var => parseFrom home { o with vars := o.vars ++ [var] } args
        | .none => .error (.notPair pair)
    else if arg = "--dump-config".toList then parseFrom home { o with dumpConfig := true } args
    else if arg = "-h".toList ∨ arg = "--help".toList then
      parseFrom home { o with help := true } args
    else if arg = "--".toList then .ok { o with command := args }
    else if "--".toList.isPrefixOf arg then .error (.unknownOption arg)
    else .ok { o with command := arg :: args }

def parse (home : Text) (args : List Text) : Except UsageError Options := parseFrom home none args

end Options

end ShellLine
