/-
The values of pipelines.

A pipeline hands the value of each command to the next as its last argument. Commands either call a
function or are a single operand, and only functions take arguments. Evaluating a pipeline puts
nothing out and calls no template, so it depends only on the functions, the current value and the
template it stands in.
-/
import Stencil.Function.Callees
import Stencil.Template.Error

set_option autoImplicit false

namespace Stencil

/-- What is fixed while a template is executed: its name, the value it was given, and the functions
that it can call. -/
structure Scope where
  template : String
  top : Value
  functions : FuncTable

namespace Scope

/-- The value of a call. -/
def callFunction (s : Scope) (name : String) (args : List Value) : Except TemplateError Value :=
  match s.functions.callee? name with
  | none => .error (.misuse s.template (.undefinedFunction name))
  | some f => (f args).mapError (.function s.template name)

/-- The value that fields lead to, or nothing where they lead nowhere. -/
def fieldOf (v : Value) (path : List String) : Value := (v.getPath? path).getD .null

mutual

/-- The value of an operand. -/
def operand (s : Scope) (dot : Value) : Operand → Except TemplateError Value
  | .dot => .ok dot
  | .field path => .ok (fieldOf dot path)
  | .variable path => .ok (fieldOf s.top path)
  | .function name => s.callFunction name []
  | .string t => .ok (.string t)
  | .int n => .ok (.int n)
  | .float x => .ok (.float x)
  | .bool b => .ok (.bool b)
  | .nil => .ok .null
  | .pipeline p => s.pipeline dot p

/-- The values of operands, from left to right. -/
def operands (s : Scope) (dot : Value) : List Operand → Except TemplateError (List Value)
  | [] => .ok []
  | o :: rest => do
    let v ← s.operand dot o
    let vs ← s.operands dot rest
    .ok (v :: vs)

/-- The value of a command, to which a value may be piped. -/
def command (s : Scope) (dot : Value) (piped : Option Value) :
    Command → Except TemplateError Value
  | ⟨_, []⟩ => .ok .null
  | ⟨_, .function name :: rest⟩ => do
    let args ← s.operands dot rest
    -- What is piped in comes last.
    s.callFunction name (args ++ piped.toList)
  | ⟨pos, o :: rest⟩ =>
    if rest.isEmpty && piped.isNone then s.operand dot o
    else .error (.misuse s.template (.argumentToValue pos))

/-- The value of commands in a row, to the first of which a value may be piped. -/
def commands (s : Scope) (dot : Value) (piped : Option Value) :
    List Command → Except TemplateError Value
  | [] => .ok (piped.getD .null)
  | c :: rest => do
    let v ← s.command dot piped c
    s.commands dot (some v) rest

/-- The value of a pipeline. -/
def pipeline (s : Scope) (dot : Value) : Pipeline → Except TemplateError Value
  | ⟨_, cs⟩ => s.commands dot none cs

end

end Scope

end Stencil
