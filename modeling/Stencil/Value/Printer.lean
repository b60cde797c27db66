/-
Values as text in the output of a template.

Nothing prints as nothing and a text as itself. Lists and maps are only printed to be looked at, so
their form is brief and cannot be read back.
-/
import Stencil.Value.Basic
import Stencil.Decimal.Integer
import Stencil.Decimal.Text

set_option autoImplicit false

namespace Stencil.Value

mutual

/-- The text of a value. -/
def render : Value → String
  | .null => ""
  | .bool b => if b then "true" else "false"
  | .int n => Decimal.integer n.toInt
  | .float x => Decimal.text x
  | .string s => s
  | .list items => "[" ++ String.intercalate " " (renderItems items) ++ "]"
  | .map entries => "map[" ++ String.intercalate " " (renderEntries entries) ++ "]"

/-- The texts of the values of a list. -/
def renderItems : List Value → List String
  | [] => []
  | v :: vs => render v :: renderItems vs

/-- The texts of the entries of a map, each key before its value. -/
def renderEntries : List (String × Value) → List String
  | [] => []
  | (k, v) :: rest => (k ++ ":" ++ render v) :: renderEntries rest

end

end Stencil.Value
