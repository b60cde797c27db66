/-
Sets of characters given by where membership changes.

A property of the Unicode standard is true on long stretches of code points and false on long
stretches between them. Listing the code points at which the answer flips is the shortest honest
table: there is no overlap to get wrong and no range to forget, and membership is the parity of the
number of flips at or before the character.
-/

set_option autoImplicit false

namespace Stencil.Text

/-- A set of characters: code points before the first bound are outside, and every bound switches
between outside and inside. The bounds ascend. -/
structure CharSet where
  bounds : List Nat

/-- Whether the code point `n` is inside, given the answer `inside` before the first bound. -/
def CharSet.insideAfter (n : Nat) (inside : Bool) : List Nat → Bool
  | [] => inside
  | b :: bs => if n < b then inside else insideAfter n (!inside) bs

/-- Membership in a set of characters. -/
def CharSet.contains (s : CharSet) (c : Char) : Bool :=
  insideAfter c.toNat false s.bounds

end Stencil.Text
