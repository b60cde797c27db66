/-
Tables of functions that templates may call.

A table holds at most one function under a name. Functions cannot be compared by what they do, so it
counts where they stand: every name has a function of its own, even if two of them do the same.
-/
import Stencil.Function.Error
import Stencil.Text.Quoted

set_option autoImplicit false

namespace Stencil

/-- Functions under the names by which templates call them. -/
abbrev FuncTable := Table String Function

namespace FuncTable

/-- Whether two names hold the same function, or nothing if one of them holds none. -/
def same? (t : FuncTable) (a b : String) : Option Bool :=
  if t.contains a && t.contains b then some (a == b) else none

/-- A table shown by its names in order. -/
def text (t : FuncTable) : String :=
  "\x7b" ++ String.intercalate ", " (t.keys.map Text.quote) ++ "\x7d"

end FuncTable

end Stencil
