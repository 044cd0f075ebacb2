import ShellLine.Span

/-! # Diagnostics

Reading a line never fails. Where something is missing or left open, reading goes
on and a diagnostic says what was found and where. -/

namespace ShellLine

/-- What was missing or left open. -/
inductive Anomaly
  /-- A redirection operator with no word behind it. -/
  | missingRedirectTarget
  /-- `N>&` with no digits behind it. -/
  | missingDupTarget
  /-- `N>&M` with digits that give no descriptor number. -/
  | invalidDupTarget
  /-- A single quote with no second one. -/
  | unterminatedSingleQuote
  /-- A double quote with no second one. -/
  | unterminatedDoubleQuote
  /-- `${` with no closing brace. -/
  | unterminatedBrace
  /-- A command of a pipeline with neither words nor redirections. -/
  | emptyCommand
  deriving DecidableEq, Repr

namespace Anomaly

def message : Anomaly → Text
  | missingRedirectTarget => "missing redirection target".toList
  | missingDupTarget => "missing fd after >&".toList
  | invalidDupTarget => "fd after >& out of range".toList
  | unterminatedSingleQuote => "unterminated single quote".toList
  | unterminatedDoubleQuote => "unterminated double quote".toList
  | unterminatedBrace => "unterminated $\x7b".toList
  | emptyCommand => "empty command in pipeline".toList

def name : Anomaly → Text
  | missingRedirectTarget => "missing_redirect_target".toList
  | missingDupTarget => "missing_dup_target".toList
  | invalidDupTarget => "invalid_dup_target".toList
  | unterminatedSingleQuote => "unterminated_single_quote".toList
  | unterminatedDoubleQuote => "unterminated_double_quote".toList
  | unterminatedBrace => "unterminated_brace".toList
  | emptyCommand => "empty_command".toList

theorem message_injective {a b : Anomaly} (h : a.message = b.message) : a = b := by
  revert h
  cases a <;> cases b <;> decide

theorem name_injective {a b : Anomaly} (h : a.name = b.name) : a = b := by
  revert h
  cases a <;> cases b <;> decide

end Anomaly

/-- An anomaly and its place. -/
structure Diagnostic where
  kind : Anomaly
  span : Span
  deriving DecidableEq, Repr

namespace Diagnostic

def render (d : Diagnostic) : Text := d.kind.message ++ " at ".toList ++ d.span.render

def shift (n : Nat) (d : Diagnostic) : Diagnostic := { d with span := d.span.shift n }

end Diagnostic

end ShellLine
