/-!
# Finite binary64 numbers

`Double` is a sign, a 53-bit mantissa and a binary exponent in the one canonical form each value has, so equal
values are equal terms (up to the sign of zero).  `Double.ofDecimal?` reads a decimal: it gives the nearest
number, a tie going to the even mantissa, and refuses what is too large.
-/

namespace Segmentation

/-- The one form of each value: a full mantissa, or the smallest exponent. -/
def Double.Canonical (mantissa : Nat) (exponent : Int) : Prop :=
  mantissa < Nat.pow 2 53 ∧ -1074 ≤ exponent ∧ exponent ≤ 971 ∧ (Nat.pow 2 52 ≤ mantissa ∨ exponent = -1074)

instance (mantissa : Nat) (exponent : Int) : Decidable (Double.Canonical mantissa exponent) := by
  unfold Double.Canonical; infer_instance

/-- The number `mantissa · 2 ^ exponent`, or its negative. -/
structure Double where
  negative : Bool
  mantissa : Nat
  exponent : Int
  canonical : Double.Canonical mantissa exponent
  deriving DecidableEq

namespace Double

/-- Zero, of either sign. -/
def zero (negative : Bool) : Double := ⟨negative, 0, -1074, by decide⟩

instance : Inhabited Double := ⟨zero false⟩

def isZero (x : Double) : Bool := x.mantissa == 0

/-- The order of values knows one zero. -/
def same (x y : Double) : Bool := x = y || (x.isZero && y.isZero)

/-- The quotient `num / den` rounded to a whole number, a half going to the even neighbour. -/
def roundDiv (num den : Nat) : Nat :=
  let q := num / den
  let twice := 2 * (num % den)
  if twice < den then q else if den < twice then q + 1 else q + q % 2

/-- `num / den · 2 ^ -exponent` as one quotient of whole numbers. -/
def scale (num den : Nat) (exponent : Int) : Nat × Nat :=
  (num * Nat.pow 2 (-exponent).toNat, den * Nat.pow 2 exponent.toNat)

/-- The exponent at which `num / den` has a full mantissa, or the smallest one. -/
def exponentFor (num den : Nat) : Int :=
  let guess : Int := (num.log2 : Int) - den.log2 - 52
  let (n, d) := scale num den guess
  max (-1074) (if n / d < Nat.pow 2 52 then guess - 1 else guess)

/-- The number nearest to `num / den`; `none` where that is past the largest one. -/
def ofRatio? (negative : Bool) (num den : Nat) : Option Double :=
  let exponent := exponentFor num den
  let (n, d) := scale num den exponent
  let mantissa := roundDiv n d
  if h : Canonical mantissa exponent then some ⟨negative, mantissa, exponent, h⟩
  else if h : Canonical (mantissa / 2) (exponent + 1) then some ⟨negative, mantissa / 2, exponent + 1, h⟩
  else none

/-- The number nearest to `digits · 10 ^ exponent`.  Exponents whose power of ten need not be written out are
settled first. -/
def ofDecimal? (negative : Bool) (digits : Nat) (exponent : Int) : Option Double :=
  let magnitude : Int := exponent + (digits.log2 : Int) / 3
  if digits = 0 ∨ magnitude < -400 then some (zero negative)
  else if exponent > 400 then none
  else ofRatio? negative (digits * Nat.pow 10 exponent.toNat) (Nat.pow 10 (-exponent).toNat)

/-- The value as a whole number, where it is one. -/
def toInt? (x : Double) : Option Int :=
  let d := Nat.pow 2 (-x.exponent).toNat
  if x.mantissa % d = 0 then
    let magnitude := x.mantissa * Nat.pow 2 x.exponent.toNat / d
    some (if x.negative then -(magnitude : Int) else magnitude)
  else none

end Double

end Segmentation
