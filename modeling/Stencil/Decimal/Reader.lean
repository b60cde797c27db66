/-
Reading decimal text as a floating-point number.

A decimal with digits before and after the point and an exponent is the exact fraction
`mantissa · 10^exponent`. It is rounded once. Exponents far beyond the range are answered without
building the power of ten, so a short text never asks for a long computation.
-/
import Stencil.Decimal.Binary

set_option autoImplicit false

namespace Stencil.Decimal

/-- The number written by decimal digits, most significant first. -/
def digitsValue (cs : List Char) : Nat :=
  cs.foldl (fun n c => 10 * n + (c.toNat - '0'.toNat)) 0

/-- The fraction `mantissa · 10^exponent`. -/
def fraction (mantissa : Nat) (exponent : Int) : Nat × Nat :=
  (mantissa * Nat.pow 10 exponent.toNat, Nat.pow 10 (-exponent).toNat)

/-- The number of the format nearest to `mantissa · 10^exponent`, or nothing if that is beyond its
range. From `10^310` on everything is, and below `10^-330` everything rounds to zero. -/
def BinaryFormat.ofDecimal? (fmt : BinaryFormat) (mantissa : Nat) (exponent : Int) :
    Option Binary :=
  let places := ((Nat.toDigits 10 mantissa).length : Int) + exponent
  if mantissa = 0 ∨ places < -330 then some ⟨0, fmt.minExponent⟩
  else if 310 < places then none
  else
    let (num, den) := fraction mantissa exponent
    fmt.nearest? num den

/-- The double-precision number nearest to `mantissa · 10^exponent` of the given sign, infinite
beyond the range. -/
def toFloat (negative : Bool) (mantissa : Nat) (exponent : Int) : Float :=
  match binary64.ofDecimal? mantissa exponent with
  | some b => ofParts negative b
  | none => infinity negative

/-- A decimal as written: its sign, its digits as one number, and the exponent of the last one. -/
structure Written where
  negative : Bool
  mantissa : Nat
  exponent : Int

/-- The digits at the start of a text and what follows them. -/
def takeDigits (s : List Char) : List Char × List Char := s.span Char.isDigit

/-- The exponent part at the start of a text, if there is one, and what follows it. An `e` without
digits is no exponent part. -/
def takeExponent (s : List Char) : Int × List Char :=
  match s with
  | e :: rest =>
    if e = 'e' ∨ e = 'E' then
      let (negative, unsigned) :=
        match rest with
        | '-' :: r => (true, r)
        | '+' :: r => (false, r)
        | r => (false, r)
      let (ds, more) := takeDigits unsigned
      if ds.isEmpty then (0, s)
      else (if negative then -(digitsValue ds : Int) else digitsValue ds, more)
    else (0, s)
  | [] => (0, s)

/-- Reads a whole text as a decimal: an optional sign, digits with at most one point among or around
them, and an optional exponent. -/
def read? (s : List Char) : Option Written :=
  let (negative, unsigned) :=
    match s with
    | '-' :: r => (true, r)
    | '+' :: r => (false, r)
    | r => (false, r)
  let (whole, afterWhole) := takeDigits unsigned
  let (places, afterPlaces) :=
    match afterWhole with
    | '.' :: r => takeDigits r
    | r => ([], r)
  let (exponent, rest) := takeExponent afterPlaces
  if rest.isEmpty && !(whole.isEmpty && places.isEmpty) then
    some ⟨negative, digitsValue (whole ++ places), exponent - (places.length : Int)⟩
  else
    none

/-- The number nearest to a decimal as written. -/
def Written.toFloat (w : Written) : Float := Decimal.toFloat w.negative w.mantissa w.exponent

/-- Reads a decimal, or one of the words for what no decimal stands for. -/
def float? (s : String) : Option Float :=
  match s with
  | "NaN" => some (0.0 / 0.0)
  | "inf" => some (infinity false)
  | "-inf" => some (infinity true)
  | _ => (read? s.toList).map Written.toFloat

end Stencil.Decimal
