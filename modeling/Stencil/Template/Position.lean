/-
Places in a template source, for messages.

A position counts lines and characters from one. It is a function of the text before the place, so
every scanner moves its position over exactly the characters that it reads.
-/
import Stencil.Decimal.Integer

set_option autoImplicit false

namespace Stencil

/-- A line and a column, both counted from one, the column in characters. -/
structure Position where
  line : Nat
  column : Nat
  deriving DecidableEq, Repr

namespace Position

/-- The position of the first character. -/
def start : Position := ⟨1, 1⟩

/-- The position of nothing at all. No place in a source has it. -/
def nowhere : Position := ⟨0, 0⟩

/-- The position behind the character `c` at `p`. -/
def next (p : Position) (c : Char) : Position :=
  if c = '\n' then ⟨p.line + 1, 1⟩ else ⟨p.line, p.column + 1⟩

/-- The position behind the characters `cs`, the first of which is at `p`. -/
def past (p : Position) (cs : List Char) : Position := cs.foldl next p

@[simp] theorem past_nil (p : Position) : p.past [] = p := rfl

/-- A position as messages give it. -/
def text (p : Position) : String := Decimal.integer p.line ++ ":" ++ Decimal.integer p.column

end Position

end Stencil
