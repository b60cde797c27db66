/-
Floating-point numbers as exact integers times powers of two.

All conversions between decimal text and floating-point numbers go through the form `m · 2^q`, with
`m` a natural number. Taking a finite number apart is exact. Putting a fraction together rounds once,
to the nearest representable number and to the even one when two are equally near, in exact integer
arithmetic, so a text that has many digits rounds as well as one that has few.
-/

set_option autoImplicit false

namespace Stencil.Decimal

/-! ## Formats -/

/-- A binary format: finite numbers are `m · 2^q` with `m < 2^precision` and `q` between the two
exponents. -/
structure BinaryFormat where
  precision : Nat
  minExponent : Int
  maxExponent : Int

/-- Double precision. -/
def binary64 : BinaryFormat := ⟨53, -1074, 971⟩

/-- Single precision. -/
def binary32 : BinaryFormat := ⟨24, -149, 104⟩

/-- A non-negative number `significand · 2^exponent`. -/
structure Binary where
  significand : Nat
  exponent : Int

/-! ## Rounding a fraction -/

/-- The integer nearest to `num / den`, the even one of two equally near. -/
def roundHalfEven (num den : Nat) : Nat :=
  let floor := num / den
  let twice := 2 * (num % den)
  if twice < den ∨ (twice = den ∧ floor % 2 = 0) then floor else floor + 1

/-- The fraction `num / den` counted in units of `2^q`, as a fraction. -/
def inUnits (num den : Nat) (q : Int) : Nat × Nat :=
  if q < 0 then (num * Nat.pow 2 (-q).toNat, den) else (num, den * Nat.pow 2 q.toNat)

/-- The number of the format nearest to `num / den`, or nothing if that is beyond its range. -/
def BinaryFormat.nearest? (fmt : BinaryFormat) (num den : Nat) : Option Binary :=
  let low := max fmt.minExponent (((num.log2 : Int) - (den.log2 : Int)) - (fmt.precision : Int))
  let units := inUnits num den low
  let q := if units.1 / units.2 < Nat.pow 2 fmt.precision then low else low + 1
  let units := inUnits num den q
  let m := roundHalfEven units.1 units.2
  -- Rounding up may reach the next power of two.
  let rounded : Binary := if m < Nat.pow 2 fmt.precision then ⟨m, q⟩ else ⟨m / 2, q + 1⟩
  if rounded.exponent ≤ fmt.maxExponent then some rounded else none

/-! ## Double-precision numbers -/

/-- The smallest significand of a number that is not subnormal. -/
def leadingBit : Nat := 0x10000000000000

/-- The sign and the parts of a finite double-precision number; nothing for an infinity or for what
is not a number. -/
def parts? (x : Float) : Option (Bool × Binary) :=
  let bits := x.toBits.toNat
  let negative := 0x8000000000000000 ≤ bits
  let field : Nat := bits / leadingBit % 2048
  let fraction : Nat := bits % leadingBit
  if field = 2047 then none
  else if field = 0 then some (negative, ⟨fraction, -1074⟩)
  else some (negative, ⟨leadingBit + fraction, (field : Int) - 1075⟩)

/-- The double-precision number with the given sign and parts, which must be one of the format. -/
def ofParts (negative : Bool) (b : Binary) : Float :=
  let signBit := if negative then 0x8000000000000000 else 0
  let magnitude :=
    if b.significand < leadingBit then b.significand
    else (b.exponent + 1075).toNat * leadingBit + (b.significand - leadingBit)
  Float.ofBits (UInt64.ofNat (signBit + magnitude))

/-- The infinity of the given sign. -/
def infinity (negative : Bool) : Float := if negative then -(1.0 / 0.0) else 1.0 / 0.0

/-- The double-precision number nearest to a fraction, infinite beyond the range. -/
def floatOfFraction (negative : Bool) (num den : Nat) : Float :=
  match binary64.nearest? num den with
  | some b => ofParts negative b
  | none => infinity negative

/-- The double-precision number nearest to an integer. -/
def floatOfInteger (n : Int) : Float := floatOfFraction (n < 0) n.natAbs 1

end Stencil.Decimal
