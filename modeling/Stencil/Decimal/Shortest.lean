/-
The shortest decimal that stands for a floating-point number.

Every finite number owns the interval of reals that round to it; its ends are half-way to the
neighbours and belong to the interval when the significand is even. The grids `10^k` are nested, so
the coarsest grid with a point in the interval gives the fewest digits. A grid coarser than the
interval has its only candidates next to the number itself, one on either side; of two that hit the
nearer is taken, and the upper one when they are equally near.
-/
import Stencil.Decimal.Binary

set_option autoImplicit false

namespace Stencil.Decimal

/-- A non-negative decimal `digits · 10^exponent`. -/
structure Scaled where
  digits : Nat
  exponent : Int

/-- The reals that round to a number, all three counted in the same unit `2^exponent`; `closed` says
whether the ends belong. -/
structure Interval where
  low : Nat
  value : Nat
  high : Nat
  exponent : Int
  closed : Bool

/-- The interval of a positive double-precision number. Below a power of two the neighbour is only
half as far, except where the exponents end. -/
def Interval.of (b : Binary) : Interval :=
  let tight := b.significand = leadingBit ∧ b.exponent ≠ -1074
  { low := 4 * b.significand - (if tight then 1 else 2)
    value := 4 * b.significand
    high := 4 * b.significand + 2
    exponent := b.exponent - 2
    closed := b.significand % 2 = 0 }

/-- A grid point compared with an interval needs both in whole numbers: the factors by which to
multiply the interval's numbers and the grid's digits. -/
def factors (binaryExponent decimalExponent : Int) : Nat × Nat :=
  (Nat.pow 2 binaryExponent.toNat * Nat.pow 10 (-decimalExponent).toNat,
    Nat.pow 2 (-binaryExponent).toNat * Nat.pow 10 decimalExponent.toNat)

/-- The best point of the grid `10^k` in the interval, if there is one. -/
def Interval.pointOn? (i : Interval) (k : Int) : Option Nat :=
  let (scale, step) := factors i.exponent k
  let low := i.low * scale
  let value := i.value * scale
  let high := i.high * scale
  let below := value / step
  let above := below + 1
  let belowHits := low < below * step ∨ (i.closed ∧ low = below * step)
  let aboveHits := above * step < high ∨ (i.closed ∧ above * step = high)
  -- Both neighbours on the grid read back; the nearer one is the better text.
  if belowHits ∧ aboveHits then
    some (if value - below * step < above * step - value then below else above)
  else if belowHits then some below
  else if aboveHits then some above
  else none

/-- The decimal exponents at which a double-precision number can have its last digit, from the
coarsest on. -/
def gridExponents : List Int := (List.range 640).map fun (n : Nat) => 310 - (n : Int)

/-- The shortest decimal that reads back as the positive number, and the nearest of those. -/
def shortest (b : Binary) : Scaled :=
  let i := Interval.of b
  match gridExponents.findSome? fun k => (i.pointOn? k).map fun d => (⟨d, k⟩ : Scaled) with
  | some found => found
  | none => ⟨0, 0⟩

end Stencil.Decimal
