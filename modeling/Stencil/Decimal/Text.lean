/-
Floating-point numbers as text.

A finite number is written with its shortest digits in positional notation, however large or small
it is: there is never an exponent, an integral number has no point, and a zero keeps its sign.
-/
import Stencil.Decimal.Shortest

set_option autoImplicit false

namespace Stencil.Decimal

/-- `digits · 10^exponent` written without an exponent. -/
def Scaled.positional (d : Scaled) : List Char :=
  let ds := Nat.toDigits 10 d.digits
  if 0 ≤ d.exponent then
    ds ++ List.replicate d.exponent.toNat '0'
  else
    let places := (-d.exponent).toNat
    if places < ds.length then
      ds.take (ds.length - places) ++ '.' :: ds.drop (ds.length - places)
    else
      ['0', '.'] ++ List.replicate (places - ds.length) '0' ++ ds

/-- The text of a floating-point number. -/
def text (x : Float) : String :=
  match parts? x with
  | none => if x.isNaN then "NaN" else if x < 0 then "-inf" else "inf"
  | some (negative, b) =>
    let magnitude := if b.significand = 0 then ['0'] else (shortest b).positional
    String.ofList (if negative then '-' :: magnitude else magnitude)

end Stencil.Decimal
