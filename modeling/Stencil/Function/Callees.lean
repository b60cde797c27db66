/-
The functions that a template can reach by name.

A function in the table hides a built-in one of the same name. Looking a name up is the same when a
source is parsed and when it is executed, so a call that was accepted finds its function as long as
the table stays.
-/
import Stencil.Function.Builtin
import Stencil.Function.Table

set_option autoImplicit false

namespace Stencil.FuncTable

/-- The function that a name stands for. -/
def callee? (t : FuncTable) (name : String) : Option Function :=
  (t.get? name).or ((Builtin.ofName? name).map Builtin.apply)

/-- Whether a name stands for a function. -/
def defines (t : FuncTable) (name : String) : Bool := (t.callee? name).isSome

end Stencil.FuncTable
