/-!
# Floating-point numbers

The numbers of the 64-bit binary format: a sign, a significand of up to 53 bits and a power of two,
besides the infinities and the number that is none. Everything is computed on natural numbers.
`Binary64.ofRatio` gives the number nearest to a quotient, and of two equally near ones the one
with the even significand.
-/

namespace ToolAccess

/-- Two to a power. -/
def twoTo (n : Nat) : Nat := Nat.pow 2 n

/-- Ten to a power. -/
def tenTo (n : Nat) : Nat := Nat.pow 10 n

/-- A number of the 64-bit binary format. A finite one is `significand * 2 ^ exponent`, with a
significand below `2 ^ 53`, and of at least `2 ^ 52` unless the exponent is the least. -/
inductive Binary64 where
  | finite (negative : Bool) (significand : Nat) (exponent : Int)
  | infinite (negative : Bool)
  | nan
  deriving DecidableEq, Repr, Inhabited

namespace Binary64

/-- The least exponent. -/
def minExponent : Int := -1074

/-- The greatest exponent of a finite number. -/
def maxExponent : Int := 971

/-- The number with a power of two taken out of a fraction: numerator and denominator of
`num / den / 2 ^ e`. -/
def scale (num den : Nat) (e : Int) : Nat × Nat :=
  if 0 ≤ e then (num, den * twoTo e.toNat) else (num * twoTo (-e).toNat, den)

/-- A quotient rounded to the nearest whole number, halves to the even neighbour. -/
def roundQuotient (num den : Nat) : Nat :=
  let q := num / den
  let twice := 2 * (num % den)
  if twice < den || (twice == den && q % 2 == 0) then q else q + 1

/-- The exponent at which a positive quotient has a significand of 53 bits, or the least one if
that is greater. -/
def exponentFor (num den : Nat) : Int :=
  let k : Int := (num.log2 : Int) - (den.log2 : Int)
  let (n, d) := scale num den k
  max minExponent (if d ≤ n then k - 52 else k - 53)

/-- The number nearest to a quotient of natural numbers. -/
def ofRatio (negative : Bool) (num den : Nat) : Binary64 :=
  if num = 0 then finite negative 0 minExponent
  else
    let e := exponentFor num den
    let (n, d) := scale num den e
    let m := roundQuotient n d
    let (m, e) := if m = twoTo 53 then (twoTo 52, e + 1) else (m, e)
    if maxExponent < e then infinite negative else finite negative m e

/-- The number nearest to `digits * 10 ^ power`. From `10 ^ 310` on every number is infinite, and
below `10 ^ (-330)` it is zero, whatever its digits. -/
def ofDecimal (negative : Bool) (digits : Nat) (power : Int) : Binary64 :=
  let magnitude := ((Nat.toDigits 10 digits).length : Int) + power
  if digits = 0 ∨ magnitude < -330 then finite negative 0 minExponent
  else if 310 < magnitude then infinite negative
  else if 0 ≤ power then ofRatio negative (digits * tenTo power.toNat) 1
  else ofRatio negative digits (tenTo (-power).toNat)

/-- Numerator and denominator of the size of a finite number. -/
def ratio (significand : Nat) (exponent : Int) : Nat × Nat :=
  if 0 ≤ exponent then (significand * twoTo exponent.toNat, 1)
  else (significand, twoTo (-exponent).toNat)

/-- The product of the sizes of two finite numbers, rounded, with the given sign. -/
def mulSize (negative : Bool) (m₁ : Nat) (e₁ : Int) (m₂ : Nat) (e₂ : Int) : Binary64 :=
  let (n, d) := ratio (m₁ * m₂) (e₁ + e₂)
  ofRatio negative n d

/-- The quotient of the sizes of two finite numbers, rounded, with the given sign. -/
def divSize (negative : Bool) (m₁ : Nat) (e₁ : Int) (m₂ : Nat) (e₂ : Int) : Binary64 :=
  let (n, d) := ratio m₁ (e₁ - e₂)
  ofRatio negative n (d * m₂)

end Binary64

end ToolAccess
