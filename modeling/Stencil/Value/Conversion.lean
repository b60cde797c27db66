/-
Values made from numbers, bytes and keyed data of other shapes.

Whatever has no exact counterpart takes the nearest one that a reader of JSON would have: integers
beyond 64 signed bits become floating-point numbers, numbers that are not finite become nothing, and
keys that are not texts are written as texts. Sizes are counts, so they stop at the largest integer.
-/
import Stencil.Value.Basic
import Stencil.Decimal.Integer

set_option autoImplicit false

namespace Stencil

/-- Why data has no value. -/
inductive ConversionError where
  | numberOutOfRange
  | keyNotString
  deriving Repr, DecidableEq

/-- The message of a conversion error. -/
def ConversionError.message : ConversionError → String
  | .numberOutOfRange => "number out of range"
  | .keyNotString => "key must be a string"

namespace Value

/-- A count, held at the largest integer. -/
def ofCount (n : Nat) : Value := .int ((Decimal.int64? n).getD Int64.maxValue)

/-- An integer that fits in 64 bits with or without a sign; without room for it among the signed
ones it is the nearest floating-point number. -/
def ofInteger (n : Int) : Except ConversionError Value :=
  match Decimal.int64? n with
  | some i => .ok (.int i)
  | none =>
    if 0 ≤ n ∧ n ≤ 18446744073709551615 then
      .ok (.float (Decimal.floatOfFraction false n.toNat 1))
    else .error .numberOutOfRange

/-- A floating-point number if it is finite, else nothing. -/
def ofFinite (x : Float) : Value := if x.isFinite then .float x else .null

/-- The single-precision number nearest to a decimal, as a value. -/
def ofSingle (w : Decimal.Written) : Value :=
  match Decimal.binary32.ofDecimal? w.mantissa w.exponent with
  | none => .null
  | some b =>
    .float (Decimal.floatOfFraction w.negative
      (b.significand * Nat.pow 2 b.exponent.toNat) (Nat.pow 2 (-b.exponent).toNat))

/-- The bytes of a text in its encoding, as a list of integers. -/
def ofBytes (s : String) : Value :=
  .list (s.toUTF8.toList.map fun b => ofCount b.toNat)

/-- A map whose keys are integers. -/
def ofIntegerKeys (entries : List (Int × Value)) : Value :=
  ofEntries (entries.map fun (k, v) => (Decimal.integer k, v))

/-- A map whose keys are truth values. -/
def ofBoolKeys (entries : List (Bool × Value)) : Value :=
  ofEntries (entries.map fun (k, v) => (if k then "true" else "false", v))

end Value

end Stencil
