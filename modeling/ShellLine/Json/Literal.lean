import ShellLine.Json

/-! # Numbers and strings of a JSON text

The grammar of numbers and strings is one thing and their value another: a number
may be too large, and a string may hold half of a surrogate pair. A literal keeps
what was written, and its value is taken when it is needed. -/

namespace ShellLine.Json

/-! ### Numbers -/

/-- A number as it is written. -/
structure NumberLiteral where
  negative : Bool
  /-- The digits in front of the point. -/
  whole : Text
  /-- The digits behind the point; without a point there are none. -/
  fraction : Text
  /-- Whether the exponent is negative, and its digits. -/
  exponent : Option (Bool × Text)
  deriving DecidableEq, Repr

namespace NumberLiteral

/-- Reads the fraction, if a point stands in front; a digit must follow the point. -/
def readFraction : Text → Option (Text × Text)
  | '.' :: s =>
    let digits := s.takeWhile Char.isDigit
    if digits = [] then none else some (digits, s.dropWhile Char.isDigit)
  | s => some ([], s)

def readSign : Text → Bool × Text
  | '+' :: s => (false, s)
  | '-' :: s => (true, s)
  | s => (false, s)

/-- Reads the exponent, if its letter stands in front; a digit must follow. -/
def readExponent : Text → Option (Option (Bool × Text) × Text)
  | [] => some (none, [])
  | c :: s =>
    if c = 'e' ∨ c = 'E' then
      let (negative, s) := readSign s
      let digits := s.takeWhile Char.isDigit
      if digits = [] then none else some (some (negative, digits), s.dropWhile Char.isDigit)
    else some (none, c :: s)

/-- Reads the digits in front of the point: a zero alone, or digits without a leading zero. -/
def readWhole (s : Text) : Option (Text × Text) :=
  let digits := s.takeWhile Char.isDigit
  if digits = [] ∨ (digits.head? = some '0' ∧ 1 < digits.length) then none
  else some (digits, s.dropWhile Char.isDigit)

/-- Reads the number at the front of a text. -/
def read (s : Text) : Option (NumberLiteral × Text) := do
  let (negative, s) := match s with
    | '-' :: s => (true, s)
    | s => (false, s)
  let (whole, s) ← readWhole s
  let (fraction, s) ← readFraction s
  let (exponent, s) ← readExponent s
  return (⟨negative, whole, fraction, exponent⟩, s)

/-! ### The value of a number

The digits of a number with a fraction or an exponent are gathered in 64 bits, and
digits that do not fit are left out. The result is then scaled by a power of ten
that is itself a floating-point number, so the value may be one unit away from the
nearest one. -/

/-- Gathers digits in front of the point; the second number counts those that are left out. -/
def gatherWhole : Nat → Text → Nat × Nat
  | n, [] => (n, 0)
  | n, c :: s =>
    let m := 10 * n + Text.digitValue c
    if m < UInt64.size then gatherWhole m s else (n, s.length + 1)

/-- Gathers digits behind the point; the second number counts those that are taken. -/
def gatherFraction : Nat → Text → Nat × Nat
  | n, [] => (n, 0)
  | n, c :: s =>
    let m := 10 * n + Text.digitValue c
    if m < UInt64.size then
      let (n, taken) := gatherFraction m s
      (n, taken + 1)
    else (n, 0)

def powerOfTen (n : Nat) : Binary64 := .ofNat (Nat.pow 10 n)

def maxPower : Nat := 308

/-- A magnitude divided by `10^n`, in steps of the largest power; three steps leave nothing. -/
def scaleDown : Nat → Binary64 → Nat → Binary64
  | 0, _, _ => .zero false
  | steps + 1, x, n =>
    if n ≤ maxPower then x.divMagnitude (powerOfTen n)
    else scaleDown steps (x.divMagnitude (powerOfTen maxPower)) (n - maxPower)

/-- A magnitude times `10^e`; there is none if it is not finite. -/
def scale? (x : Binary64) (e : Int) : Option Binary64 :=
  if e < 0 then some (scaleDown 3 x e.natAbs)
  else if x = .zero false then some x
  else if maxPower < e then none
  else
    let y := x.mulMagnitude (powerOfTen e.natAbs)
    if y.isInfinite then none else some y

def exponentValue (l : NumberLiteral) : Int :=
  match l.exponent with
  | none => 0
  | some (negative, digits) =>
    let n : Int := Text.digitsValue digits
    if negative then -n else n

def float? (l : NumberLiteral) : Option Binary64 :=
  let (n, omitted) := gatherWhole 0 l.whole
  let (n, taken) := gatherFraction n l.fraction
  let magnitude := scale? (.ofNat n) ((omitted : Int) - taken + l.exponentValue)
  magnitude.map fun x => if l.negative then x.neg else x

/-- The value of the number. It is an integer if neither a fraction nor an exponent is written and
it fits 64 bits, with or without a sign; the negative zero is no integer. -/
def value? (l : NumberLiteral) : Option Json :=
  let n := Text.digitsValue l.whole
  if l.fraction = [] ∧ l.exponent = none then
    if !l.negative && n < UInt64.size then some (int n)
    else if l.negative && 0 < n && Int64.minValue.toInt ≤ -n then some (int (-n))
    else l.float?.map float
  else l.float?.map float

end NumberLiteral

/-! ### Strings -/

/-- What is read at once in a string. -/
inductive StringItem
  /-- A character, written as itself or with a backslash and a letter. -/
  | char (c : Char)
  /-- Sixteen bits, written as four hexadecimal digits. -/
  | unit (n : Nat)
  deriving DecidableEq, Repr

namespace StringItem

/-- The character that a letter behind a backslash stands for. -/
def escaped? (c : Char) : Option Char :=
  if c = '"' ∨ c = '\\' ∨ c = '/' then some c
  else if c = 'b' then some '\x08'
  else if c = 'f' then some '\x0c'
  else if c = 'n' then some '\n'
  else if c = 'r' then some '\r'
  else if c = 't' then some '\t'
  else none

def readEscape : Text → Option (StringItem × Text)
  | 'u' :: a :: b :: c :: d :: s => (Text.hexValue? [a, b, c, d]).map fun n => (unit n, s)
  | c :: s => (escaped? c).map fun c => (char c, s)
  | [] => none

/-- Reads the string whose opening quote has been read. Controls must be written with a
backslash. -/
def readAll : Nat → Text → Option (List StringItem × Text)
  | _, [] => none
  | 0, _ => none
  | n + 1, c :: s =>
    if c = '"' then some ([], s)
    else if c = '\\' then do
      let (item, s) ← readEscape s
      let (items, s) ← readAll n s
      return (item :: items, s)
    else if c.toNat < 0x20 then none
    else do
      let (items, s) ← readAll n s
      return (char c :: items, s)

/-- Whether sixteen bits are the first half of a pair. -/
def isHighSurrogate (n : Nat) : Bool := 0xd800 ≤ n && n < 0xdc00

/-- Whether sixteen bits are the second half of a pair. -/
def isLowSurrogate (n : Nat) : Bool := 0xdc00 ≤ n && n < 0xe000

/-- The text of a string. Halves of a pair must stand together. -/
def text? : List StringItem → Option Text
  | [] => some []
  | char c :: items => (text? items).map (c :: ·)
  | unit n :: items =>
    if isHighSurrogate n then
      match items with
      | unit m :: items =>
        if isLowSurrogate m then
          (text? items).map (Char.ofNat (0x10000 + (n - 0xd800) * 0x400 + (m - 0xdc00)) :: ·)
        else none
      | _ => none
    else if isLowSurrogate n then none
    else (text? items).map (Char.ofNat n :: ·)

end StringItem

end ShellLine.Json
