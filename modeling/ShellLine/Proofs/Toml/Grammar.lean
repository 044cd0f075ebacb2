import ShellLine.Toml.Strings

/-! # Documents of TOML

The documents that configurations are kept in: tables with headers, comments, and entries
with truth values, whole numbers and strings. A line stands for what it does to a
document in part. Nothing is said here of how a document is read, and much that is a
document is left out. -/

namespace ShellLine.Toml

/-! ### Characters -/

/-- How a character is written between double quotes: a letter behind a backslash, four digits of
its code point, or itself. -/
inductive EscapedForm (c : Char) : Text → Prop
  | letter {a : Char} (h : escaped? a = some c) : EscapedForm c ['\\', a]
  | code {digits : Text} (length : digits.length = 4)
      (value : Text.hexValue? digits = some c.toNat) : EscapedForm c ('\\' :: 'u' :: digits)
  | plain (quote : c ≠ '"') (backslash : c ≠ '\\') (control : isControl c = false) :
    EscapedForm c [c]

/-- How a text is written between double quotes. -/
inductive EscapedRow : Text → Text → Prop
  | nil : EscapedRow [] []
  | cons {c : Char} {s v w : Text} (head : EscapedForm c v) (tail : EscapedRow s w) :
    EscapedRow (c :: s) (v ++ w)

/-- How a character is written between triple double quotes: as between single ones, but for
newlines. -/
def MultiBasicForm (c : Char) (w : Text) : Prop := EscapedForm c w ∨ c = '\n' ∧ w = ['\n']

/-- A character that stands between triple single quotes as itself. -/
def MultiLiteralForm (c : Char) (w : Text) : Prop :=
  w = [c] ∧ c ≠ '\'' ∧ (c = '\n' ∨ isControl c = false)

/-- `MultiForm quote form k s w`: behind `k` quotes, `s` is written as `w`, and never do more than
two quotes stand in a row. -/
inductive MultiForm (quote : Char) (form : Char → Text → Prop) : Nat → Text → Text → Prop
  | nil {k : Nat} (le : k ≤ 2) : MultiForm quote form k [] []
  | quote {k : Nat} {s w : Text} (tail : MultiForm quote form (k + 1) s w) :
    MultiForm quote form k (quote :: s) (quote :: w)
  | char {k : Nat} {c : Char} {v s w : Text} (le : k ≤ 2) (head : form c v)
    (tail : MultiForm quote form 0 s w) : MultiForm quote form k (c :: s) (v ++ w)

/-- What may stand between triple quotes and the string `w` behind them: a newline, which is no
part of the string, or nothing if the string does not begin with a newline. -/
def Opening (w lead : Text) : Prop :=
  lead = ['\n'] ∨ lead = [] ∧ ∀ c ∈ w.head?, isControl c = false

/-! ### Strings, keys and scalars -/

/-- How a string is written. -/
inductive StringForm (s : Text) : Text → Prop
  | basic {w : Text} (row : EscapedRow s w) : StringForm s ('"' :: w ++ ['"'])
  | literal (plain : ∀ c ∈ s, isLiteralChar c = true) : StringForm s ('\'' :: s ++ ['\''])
  | multiBasic {w lead : Text} (form : MultiForm '"' MultiBasicForm 0 s w)
      (opening : Opening w lead) :
    StringForm s (['"', '"', '"'] ++ lead ++ w ++ ['"', '"', '"'])
  | multiLiteral {w lead : Text} (form : MultiForm '\'' MultiLiteralForm 0 s w)
      (opening : Opening w lead) :
    StringForm s (['\'', '\'', '\''] ++ lead ++ w ++ ['\'', '\'', '\''])

/-- How a key is written. -/
inductive KeyForm (k : Text) : Text → Prop
  | bare (nonempty : k ≠ []) (plain : ∀ c ∈ k, isBareKeyChar c = true) : KeyForm k k
  | basic {w : Text} (row : EscapedRow k w) : KeyForm k ('"' :: w ++ ['"'])
  | literal (plain : ∀ c ∈ k, isLiteralChar c = true) : KeyForm k ('\'' :: k ++ ['\''])

/-- How a truth value, a whole number or a string is written. -/
inductive ScalarForm : Toml → Text → Prop
  | true : ScalarForm (.bool .true) "true".toList
  | false : ScalarForm (.bool .false) "false".toList
  | int (n : Int64) : ScalarForm (.int n) (Text.ofInt n.toInt)
  | string {s w : Text} (form : StringForm s w) : ScalarForm (.string s) w

/-! ### Lines -/

/-- `Line d line d'`: the line makes the draft `d` the draft `d'`. -/
inductive Line : Draft → Text → Draft → Prop
  | empty (d : Draft) : Line d [] d
  | comment (d : Draft) {s : Text} (plain : ∀ c ∈ s, isControl c = false) : Line d ('#' :: s) d
  | table {d d' : Draft} {key w : Text} (form : KeyForm key w)
      (start : d.start startTable [] key = some d') : Line d ('[' :: w ++ [']']) d'
  | subtable {d d' : Draft} {parent key v w : Text} (path : KeyForm parent v)
      (form : KeyForm key w) (start : d.start startTable [parent] key = some d') :
    Line d ('[' :: v ++ '.' :: w ++ [']']) d'
  | entry {d d' : Draft} {key k w : Text} {t : Toml} (form : KeyForm key k)
      (scalar : ScalarForm t w) (add : d.add [] key t = some d') :
    Line d (k ++ " = ".toList ++ w) d'

/-- `Document d lines d'`: the lines make the draft `d` the draft `d'`, one after the other. -/
inductive Document : Draft → List Text → Draft → Prop
  | nil (d : Draft) : Document d [] d
  | cons {d d' d'' : Draft} {line : Text} {lines : List Text} (head : Line d line d')
    (tail : Document d' lines d'') : Document d (line :: lines) d''

theorem Document.append {d d' d'' : Draft} {lines others : List Text} (h : Document d lines d')
    (h' : Document d' others d'') : Document d (lines ++ others) d'' := by
  induction h with
  | nil d => exact h'
  | cons head tail ih => exact .cons head (ih h')

end ShellLine.Toml
