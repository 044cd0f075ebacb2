import ShellLine.Json
import ShellLine.Number.Decimal

/-! # Values of variables

A variable holds a scalar. Every value has a text; null has the empty text, but
where a variable is looked up it counts as having none. -/

namespace ShellLine

/-- A scalar. -/
inductive Value
  | null
  | bool (b : Bool)
  | int (n : Int64)
  | float (x : Binary64)
  | string (s : Text)
  deriving DecidableEq, Repr

namespace Value

def render : Value → Text
  | null => []
  | bool true => "true".toList
  | bool false => "false".toList
  | int n => Text.ofInt n.toInt
  | float x => x.render
  | string s => s

/-- The text that stands for the value in a word; null has none. -/
def expansion? : Value → Option Text
  | null => none
  | v => some v.render

def kind : Value → Text
  | null => "null".toList
  | bool _ => "bool".toList
  | int _ => "int".toList
  | float _ => "float".toList
  | string _ => "str".toList

theorem expansion?_eq_none_iff {v : Value} : v.expansion? = none ↔ v = null := by
  cases v <;> simp [expansion?]

/-- A whole number as a value: a floating-point number if it does not fit 64 bits. -/
def ofInt (n : Int) : Value :=
  if Int64.minValue.toInt ≤ n ∧ n ≤ Int64.maxValue.toInt then int (Int64.ofInt n)
  else float (Binary64.ofInt n)

/-- The value that a JSON value is; arrays and objects are none. -/
def ofJson? : Json → Option Value
  | .null => some null
  | .bool b => some (bool b)
  | .int n => some (ofInt n)
  | .float x => some (float x)
  | .string s => some (string s)
  | .array _ => none
  | .object _ => none

/-- The whole number that decimal digits with an optional sign give, if it fits 64 bits. -/
def ofDecimal? (s : Text) : Option Value :=
  let (negative, digits) := match s with
    | '-' :: digits => (true, digits)
    | '+' :: digits => (false, digits)
    | digits => (false, digits)
  if digits ≠ [] ∧ digits.all Char.isDigit then
    let n : Int := Text.digitsValue digits
    let n := if negative then -n else n
    if Int64.minValue.toInt ≤ n ∧ n ≤ Int64.maxValue.toInt then some (int (Int64.ofInt n)) else none
  else none

end Value

end ShellLine
