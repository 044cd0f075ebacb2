/-! # Binary floating-point numbers of 64 bits

A number is its bit pattern: a sign, an exponent of eleven bits and a fraction of
52 bits. A finite magnitude is a whole number of the smallest unit, `2^-1074`, and
all arithmetic is done on these whole numbers: `Binary64.ofRatio` rounds a
quotient to the nearest number, a tie to the even significand, and what is too
large to infinity. -/

namespace ShellLine

/-- A floating-point number of 64 bits. -/
structure Binary64 where
  bits : UInt64
  deriving DecidableEq, Repr

namespace Binary64

/-! ### Fields -/

/-- The bit in front of the fraction, which is `2^52`. -/
def hiddenBit : Nat := 0x10000000000000

def signBit : Nat := 0x8000000000000000

def unitsOfOne : Nat := Nat.pow 2 1074

def isNegative (x : Binary64) : Bool := signBit ≤ x.bits.toNat

def exponentField (x : Binary64) : Nat := x.bits.toNat / hiddenBit % 2048

def fractionField (x : Binary64) : Nat := x.bits.toNat % hiddenBit

/-- Whether the number is neither infinite nor a NaN. -/
def isFinite (x : Binary64) : Bool := x.exponentField != 2047

def isNaN (x : Binary64) : Bool := x.exponentField == 2047 && x.fractionField != 0

def isInfinite (x : Binary64) : Bool := x.exponentField == 2047 && x.fractionField == 0

/-- The significand: a hidden bit stands in front of the fraction unless the exponent field is
zero. -/
def significand (x : Binary64) : Nat :=
  if x.exponentField = 0 then x.fractionField else hiddenBit + x.fractionField

/-- The unit of the significand is `2^unitExponent` times the smallest unit. -/
def unitExponent (x : Binary64) : Nat := x.exponentField - 1

/-- The magnitude of a finite number, counted in the smallest unit. -/
def magnitude (x : Binary64) : Nat := x.significand * Nat.pow 2 x.unitExponent

/-- The number of a sign and of the 63 bits behind it. -/
def ofFields (negative : Bool) (rest : Nat) : Binary64 :=
  ⟨UInt64.ofNat ((if negative then signBit else 0) + rest)⟩

def zero (negative : Bool) : Binary64 := ofFields negative 0

def infinity (negative : Bool) : Binary64 := ofFields negative (2047 * hiddenBit)

def nan : Binary64 := ofFields false (2047 * hiddenBit + hiddenBit / 2)

def neg (x : Binary64) : Binary64 := ofFields (!x.isNegative) (x.bits.toNat % signBit)

/-! ### Rounding -/

/-- The whole number nearest to `a / d`, the even one of two. -/
def roundHalfEven (a d : Nat) : Nat :=
  if 2 * (a % d) < d then a / d
  else if d < 2 * (a % d) then a / d + 1
  else if a / d % 2 = 0 then a / d
  else a / d + 1

/-- The number nearest to `a / d` smallest units. A significand that rounds up to `2^53` carries
into the exponent by itself, and every exponent from 2047 on is infinity. -/
def ofUnits (negative : Bool) (a d : Nat) : Binary64 :=
  let p := (a / d).log2 - 52
  ofFields negative
    (min (p * hiddenBit + roundHalfEven a (d * Nat.pow 2 p)) (2047 * hiddenBit))

/-- The number nearest to the quotient `a / d`. -/
def ofRatio (negative : Bool) (a d : Nat) : Binary64 := ofUnits negative (a * unitsOfOne) d

def ofNat (n : Nat) : Binary64 := ofRatio false n 1

def ofInt (n : Int) : Binary64 := ofRatio (n < 0) n.natAbs 1

/-- The number nearest to the product of two finite magnitudes. -/
def mulMagnitude (x y : Binary64) : Binary64 :=
  ofUnits false (x.magnitude * y.magnitude) unitsOfOne

/-- The number nearest to the quotient of two finite magnitudes. -/
def divMagnitude (x y : Binary64) : Binary64 := ofRatio false x.magnitude y.magnitude

end Binary64

end ShellLine
