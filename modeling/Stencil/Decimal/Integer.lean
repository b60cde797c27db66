/-
Whole numbers as text.

An integer is written with the fewest decimal digits and a minus sign in front when it is negative.
Sixty-four bits bound the integers of template values, so reading refuses what does not fit.
-/
import Stencil.Decimal.Reader

set_option autoImplicit false

namespace Stencil.Decimal

/-- The digits of an integer behind its sign. -/
def integerChars (n : Int) : List Char :=
  if n < 0 then '-' :: Nat.toDigits 10 n.natAbs else Nat.toDigits 10 n.natAbs

/-- The text of an integer. -/
def integer (n : Int) : String := String.ofList (integerChars n)

/-- The 64-bit integer with the given value, if there is one. -/
def int64? (n : Int) : Option Int64 :=
  if -9223372036854775808 ≤ n ∧ n ≤ 9223372036854775807 then some (Int64.ofInt n) else none

/-- The integer given by a sign and digits. -/
def signed (negative : Bool) (digits : List Char) : Int :=
  if negative then -(digitsValue digits : Int) else digitsValue digits

end Stencil.Decimal
