import Segmentation.Double

/-!
# The shortest decimal of a binary64 number

Every real number in `roundingInterval` rounds to the number at its centre.  `Double.shortest` looks for a point
of that interval with as few decimal digits as possible: it goes through the decimal grids from coarse to fine
and tries the two grid points around the number.  The finest grid contains the number itself, so the search ends.
`NumberStyle` says how the digits are then written.
-/

namespace Segmentation

/-- The number `digits · 10 ^ exponent`. -/
structure Decimal where
  digits : Nat
  exponent : Int
  deriving DecidableEq, Repr

/-- Which of two equally near decimals is taken. -/
inductive Tie where
  | toEven
  | up
  deriving DecidableEq, Repr

namespace Double

/-- Four times the mantissa between the ends of the interval that rounds to the number, in quarters of a unit of
the mantissa: the lower gap is half as wide below a power of two. -/
def roundingInterval (x : Double) : Nat × Nat :=
  let lowerGap := if x.mantissa = Nat.pow 2 52 ∧ x.exponent ≠ -1074 then 1 else 2
  (4 * x.mantissa - lowerGap, 4 * x.mantissa + 2)

/-- Factors that turn quarters of a mantissa unit and multiples of `10 ^ k` into one unit. -/
def commonUnit (x : Double) (k : Int) : Nat × Nat :=
  let two := x.exponent - 2
  (Nat.pow 2 two.toNat * Nat.pow 10 (-k).toNat, Nat.pow 10 k.toNat * Nat.pow 2 (-two).toNat)

/-- Whether `d · 10 ^ k` rounds to the number; the ends of the interval do so for an even mantissa. -/
def readsBack (x : Double) (k : Int) (d : Nat) : Bool :=
  let (binary, decimal) := commonUnit x k
  let (lower, upper) := roundingInterval x
  if x.mantissa % 2 = 0 then lower * binary ≤ d * decimal ∧ d * decimal ≤ upper * binary
  else lower * binary < d * decimal ∧ d * decimal < upper * binary

/-- The nearest multiple of `10 ^ k` that rounds to the number. -/
def nearestOnGrid? (x : Double) (tie : Tie) (k : Int) : Option Nat :=
  let (binary, decimal) := commonUnit x k
  let value := 4 * x.mantissa * binary
  let below := value / decimal
  let above := below + 1
  match readsBack x k below, readsBack x k above with
  | true, true =>
    let down := value - below * decimal
    let up := above * decimal - value
    if down < up then some below
    else if up < down then some above
    else match tie with
      | .up => some above
      | .toEven => some (if below % 2 = 0 then below else above)
  | true, false => some below
  | false, true => some above
  | false, false => none

/-- A power of ten above the magnitude of the number. -/
def ceilingExponent (x : Double) : Int :=
  let log := (x.mantissa.log2 : Int) + 1 + x.exponent
  if 0 ≤ log then log * 31 / 100 + 1 else log * 30 / 100 + 1

/-- The exact value on the grid of `10 ^ k`, which contains it for small enough `k`. -/
def onGrid (x : Double) (k : Int) : Nat :=
  let (binary, decimal) := commonUnit x k
  4 * x.mantissa * binary / decimal

/-- The first grid with a hit among those of `10 ^ (k + n)` down to `10 ^ k`. -/
def shortestFrom (x : Double) (tie : Tie) (k : Int) : Nat → Decimal
  | 0 => ⟨onGrid x k, k⟩
  | n + 1 =>
    match nearestOnGrid? x tie (k + (n + 1 : Nat)) with
    | some d => ⟨d, k + (n + 1 : Nat)⟩
    | none => shortestFrom x tie k n

/-- The decimal with the fewest digits that reads back as the magnitude of the number; of several the nearest. -/
def shortest (x : Double) (tie : Tie) : Decimal :=
  if x.isZero then ⟨0, 0⟩
  else
    let finest := min 0 x.exponent
    shortestFrom x tie finest (ceilingExponent x - finest).toNat

end Double

/-- How a decimal is written. -/
structure NumberStyle where
  tie : Tie
  /-- The decimal point of plain notation stands after more than `lowest` and at most `highest` digits; without
  bounds all numbers are written plainly. -/
  bounds : Option (Int × Int)
  /-- Whether whole numbers end in `.0`. -/
  marked : Bool

namespace NumberStyle

private def zeros (n : Int) : List Char := List.replicate n.toNat '0'

/-- Digits with the point after the first `point` of them. -/
def plain (style : NumberStyle) (digits : List Char) (point : Int) : List Char :=
  if point ≤ 0 then '0' :: '.' :: (zeros (-point) ++ digits)
  else if (digits.length : Int) ≤ point then
    digits ++ zeros (point - digits.length) ++ (if style.marked then ['.', '0'] else [])
  else digits.take point.toNat ++ '.' :: digits.drop point.toNat

/-- One digit, the others behind a point, and the power of ten with its sign. -/
def scientific (digits : List Char) (point : Int) : List Char :=
  let power := point - 1
  let fraction := match digits.drop 1 with
    | [] => []
    | rest => '.' :: rest
  digits.take 1 ++ fraction ++ 'e' :: (if power < 0 then '-' else '+') :: Nat.toDigits 10 power.natAbs

def decimal (style : NumberStyle) (x : Decimal) : List Char :=
  let digits := Nat.toDigits 10 x.digits
  let point := (digits.length : Int) + x.exponent
  match style.bounds with
  | none => style.plain digits point
  | some (lowest, highest) =>
    if lowest < point ∧ point ≤ highest then style.plain digits point else scientific digits point

/-- The text of a number: its sign, also that of zero, and its shortest decimal. -/
def text (style : NumberStyle) (x : Double) : List Char :=
  (if x.negative then ['-'] else []) ++ style.decimal (x.shortest style.tie)

end NumberStyle

end Segmentation
