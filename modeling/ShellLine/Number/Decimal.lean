import ShellLine.Number.Binary64
import ShellLine.Text.Basic

/-! # Decimal forms

`Decimal.shortest` is the decimal number with the fewest digits among those that
round to a given binary number, and of these the nearest one; of two equally near
it is the larger. It is always written out in full, without an exponent. -/

namespace ShellLine

/-- The number `digits * 10^exponent`. -/
structure Decimal where
  digits : Nat
  exponent : Int
  deriving DecidableEq, Repr

namespace Decimal

/-! ### The shortest form -/

/-- The magnitudes that round to a number, counted in a quarter of the smallest unit. -/
structure Interval where
  low : Nat
  value : Nat
  high : Nat
  /-- Whether the ends belong to the interval. -/
  closed : Bool
  deriving DecidableEq, Repr

namespace Interval

/-- Number of quarters of the smallest unit in one. -/
def quarterUnits : Nat := 4 * Binary64.unitsOfOne

/-- The interval of a finite number. Below a power of two the neighbour is half as far. -/
def ofBinary (x : Binary64) : Interval :=
  let m := x.significand
  let u := Nat.pow 2 x.unitExponent
  let below := if m = Binary64.hiddenBit ∧ 0 < x.unitExponent then 1 else 2
  ⟨(4 * m - below) * u, 4 * m * u, (4 * m + 2) * u, m % 2 == 0⟩

def contains (i : Interval) (a d : Nat) : Bool :=
  if i.closed then i.low * d ≤ a && a ≤ i.high * d else i.low * d < a && a < i.high * d

/-- The number on the grid of `10^e` that lies in the interval and is nearest to its value. -/
def onGrid? (i : Interval) (e : Int) : Option Decimal :=
  let up := Nat.pow 10 e.toNat * quarterUnits
  let down := Nat.pow 10 (-e).toNat
  let k := i.value * down / up
  let below := i.contains (k * up) down
  let above := i.contains ((k + 1) * up) down
  if below && above then
    if i.value * down - k * up < (k + 1) * up - i.value * down then some ⟨k, e⟩
    else some ⟨k + 1, e⟩
  else if below then some ⟨k, e⟩
  else if above then some ⟨k + 1, e⟩
  else none

/-- The first hit among `n` grids from the one of `10^e` on to finer ones. -/
def firstOnGrid (i : Interval) : Nat → Int → Decimal
  | 0, e => ⟨i.value * Nat.pow 10 (-e).toNat / (Nat.pow 10 e.toNat * quarterUnits), e⟩
  | n + 1, e => (i.onGrid? e).getD (firstOnGrid i n (e - 1))

end Interval

/-- The fewest digits that round to a finite number. The first grid is coarser than the number
itself, and seventeen digits always suffice. -/
def shortest (x : Binary64) : Decimal :=
  if x.magnitude = 0 then ⟨0, 0⟩
  else
    let log := Int.fdiv (((x.magnitude.log2 : Int) - 1074) * 30103) 100000
    (Interval.ofBinary x).firstOnGrid 20 (log + 2)

/-! ### The nearest binary number -/

/-- Beyond this power of ten every number is infinite or zero. -/
def farPower : Int := 400

/-- The binary number nearest to a decimal one. Numbers far out of range are not computed. -/
def nearest (negative : Bool) (d : Decimal) : Binary64 :=
  if d.digits = 0 then .zero negative
  else if farPower < d.exponent then .infinity negative
  else if d.exponent + (Text.ofNat d.digits).length < -farPower then .zero negative
  else .ofRatio negative (d.digits * Nat.pow 10 d.exponent.toNat)
    (Nat.pow 10 (-d.exponent).toNat)

/-! ### Writing -/

/-- The number written out: zeros behind the digits, or a point among or in front of them. -/
def render (d : Decimal) : Text :=
  let digits := Text.ofNat d.digits
  if 0 ≤ d.exponent then digits ++ List.replicate d.exponent.toNat '0'
  else
    let places := (-d.exponent).toNat
    if places < digits.length then
      digits.take (digits.length - places) ++ '.' :: digits.drop (digits.length - places)
    else '0' :: '.' :: List.replicate (places - digits.length) '0' ++ digits

end Decimal

namespace Binary64

/-- The number as text: the shortest form, a minus sign in front of negative numbers and of the
negative zero, and words for what is not finite. -/
def render (x : Binary64) : Text :=
  if x.isNaN then "NaN".toList
  else
    let sign := if x.isNegative then ['-'] else []
    if x.isInfinite then sign ++ "inf".toList else sign ++ (Decimal.shortest x).render

def isWhole (x : Binary64) : Bool := 0 ≤ (Decimal.shortest x).exponent

end Binary64

end ShellLine
