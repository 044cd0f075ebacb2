import ShellLine.Number.Decimal
import ShellLine.Toml

/-! # Numbers and dates of TOML

What starts with a digit or a sign is a date, a number with a point or an exponent,
or an integer, and is tried in this order. Each reader gives what it has read and
the text behind it. -/

namespace ShellLine.Toml

/-! ### Digits -/

/-- Reads digits with single underscores between them. The flag says whether a digit has just been
read. -/
def readDigits (isDigit : Char → Bool) : Bool → Text → Text × Text
  | _, [] => ([], [])
  | behindDigit, c :: s =>
    if isDigit c then
      let (digits, rest) := readDigits isDigit true s
      (c :: digits, rest)
    else if behindDigit && c = '_' && s.head?.any isDigit then readDigits isDigit false s
    else ([], c :: s)

def readSign : Text → Bool × Text
  | '+' :: s => (false, s)
  | '-' :: s => (true, s)
  | s => (false, s)

/-- Reads the digits of a decimal number: a zero alone, or digits without a leading zero. -/
def readDecimal (s : Text) : Option (Text × Text) :=
  match s with
  | '0' :: s => some (['0'], s)
  | s =>
    let (digits, rest) := readDigits Char.isDigit false s
    if digits = [] then none else some (digits, rest)

def readSomeDigits (s : Text) : Option (Text × Text) :=
  let (digits, rest) := readDigits Char.isDigit false s
  if digits = [] then none else some (digits, rest)

/-! ### Integers -/

def int? (n : Int) : Option Toml :=
  if Int64.minValue.toInt ≤ n ∧ n ≤ Int64.maxValue.toInt then some (int (Int64.ofInt n)) else none

def readBase (base : Nat) (s : Text) : Option (Toml × Text) :=
  let isDigit := fun c => (Text.hexDigit? c).any (· < base)
  let (digits, rest) := readDigits isDigit false s
  if digits = [] then none
  else
    let n := digits.foldl (fun n c => base * n + (Text.hexDigit? c).getD 0) 0
    (int? n).map fun v => (v, rest)

/-- Reads an integer: a decimal one with an optional sign, or one to another base without. -/
def readInteger (s : Text) : Option (Toml × Text) :=
  match s with
  | '0' :: 'x' :: s => readBase 16 s
  | '0' :: 'o' :: s => readBase 8 s
  | '0' :: 'b' :: s => readBase 2 s
  | s => do
    let (negative, s) := readSign s
    let (digits, s) ← readDecimal s
    let n : Int := Text.digitsValue digits
    let v ← int? (if negative then -n else n)
    return (v, s)

/-! ### Floating-point numbers -/

def readExponent (s : Text) : Option (Int × Text) :=
  match s with
  | [] => none
  | c :: s =>
    if c = 'e' ∨ c = 'E' then do
      let (negative, s) := readSign s
      let (digits, s) ← readSomeDigits s
      let n : Int := Text.digitsValue digits
      return (if negative then -n else n, s)
    else none

def readFraction (s : Text) : Option (Text × Text) :=
  match s with
  | '.' :: s => readSomeDigits s
  | _ => none

/-- The float of a sign, digits before and behind the point and an exponent. One that is too large
is refused if it is positive. -/
def float? (negative : Bool) (whole fraction : Text) (exponent : Int) : Option Toml :=
  let x := Decimal.nearest negative
    ⟨Text.digitsValue (whole ++ fraction), exponent - fraction.length⟩
  if x = .infinity false then none else some (float x)

/-- Reads a number with a fraction, an exponent or both. -/
def readFloat (s : Text) : Option (Toml × Text) := do
  let (negative, s) := readSign s
  let (whole, s) ← readDecimal s
  match readFraction s with
  | some (fraction, s) =>
    let (exponent, s) := (readExponent s).getD (0, s)
    let v ← float? negative whole fraction exponent
    return (v, s)
  | none =>
    let (exponent, s) ← readExponent s
    let v ← float? negative whole [] exponent
    return (v, s)

/-- Reads infinity, or what is not a number, with an optional sign. -/
def readSpecialFloat (s : Text) : Option (Toml × Text) :=
  let (negative, s) := readSign s
  match s with
  | 'i' :: 'n' :: 'f' :: s => some (float (.infinity negative), s)
  | 'n' :: 'a' :: 'n' :: s => some (float (if negative then Binary64.nan.neg else .nan), s)
  | _ => none

/-! ### Dates and times -/

def readFixed (n : Nat) (s : Text) : Option (Nat × Text) :=
  let digits := s.take n
  if digits.length = n ∧ digits.all Char.isDigit then some (Text.digitsValue digits, s.drop n)
  else none

def readPair (low high : Nat) (s : Text) : Option (Nat × Text) := do
  let (n, s) ← readFixed 2 s
  if low ≤ n ∧ n ≤ high then some (n, s) else none

def readChar (c : Char) : Text → Option Text
  | [] => none
  | d :: s => if d = c then some s else none

def daysOfMonth (year month : Nat) : Nat :=
  if month = 2 then
    if year % 4 = 0 ∧ (year % 100 ≠ 0 ∨ year % 400 = 0) then 29 else 28
  else if month = 4 ∨ month = 6 ∨ month = 9 ∨ month = 11 then 30
  else 31

def padded (width n : Nat) : Text :=
  let digits := Text.ofNat n
  List.replicate (width - digits.length) '0' ++ digits

def readDate (s : Text) : Option (Text × Text) := do
  let (year, s) ← readFixed 4 s
  let s ← readChar '-' s
  let (month, s) ← readPair 1 12 s
  let s ← readChar '-' s
  let (day, s) ← readPair 1 31 s
  if daysOfMonth year month < day then none
  else return (padded 4 year ++ '-' :: padded 2 month ++ '-' :: padded 2 day, s)

/-- A fraction of a second to nine places, without zeros at its end. -/
def secondFraction (digits : Text) : Text :=
  let shown := ((digits.take 9).reverse.dropWhile (· = '0')).reverse
  if shown = [] then [] else '.' :: shown

def readTime (s : Text) : Option (Text × Text) := do
  let (hour, s) ← readPair 0 23 s
  let s ← readChar ':' s
  let (minute, s) ← readPair 0 59 s
  let s ← readChar ':' s
  let (second, s) ← readPair 0 60 s
  let time := padded 2 hour ++ ':' :: padded 2 minute ++ ':' :: padded 2 second
  match s with
  | '.' :: rest =>
    let digits := rest.takeWhile Char.isDigit
    if digits = [] then return (time, s)
    else return (time ++ secondFraction digits, rest.dropWhile Char.isDigit)
  | s => return (time, s)

def readOffset (s : Text) : Option (Text × Text) :=
  match s with
  | [] => none
  | c :: s =>
    if c = 'Z' ∨ c = 'z' then some (['Z'], s)
    else if c = '+' ∨ c = '-' then do
      let (hour, s) ← readPair 0 23 s
      let s ← readChar ':' s
      let (minute, s) ← readPair 0 59 s
      let sign := if hour = 0 ∧ minute = 0 then '+' else c
      return (sign :: padded 2 hour ++ ':' :: padded 2 minute, s)
    else none

/-- Reads the time behind a date, with an optional distance from universal time. -/
def readTimeBehind (s : Text) : Option (Text × Text) :=
  match s with
  | [] => none
  | c :: s =>
    if c = 'T' ∨ c = 't' ∨ c = ' ' then do
      let (time, s) ← readTime s
      let (offset, s) := (readOffset s).getD ([], s)
      return ('T' :: time ++ offset, s)
    else none

/-- Reads a date, a time of day, or both. -/
def readDatetime (s : Text) : Option (Toml × Text) :=
  match readDate s with
  | some (date, s) =>
    let (time, s) := (readTimeBehind s).getD ([], s)
    some (datetime (date ++ time), s)
  | none => (readTime s).map fun (time, s) => (datetime time, s)

def readNumber (s : Text) : Option (Toml × Text) :=
  (readDatetime s).or ((readFloat s).or ((readSpecialFloat s).or (readInteger s)))

end ShellLine.Toml
