/-
Parsed templates.

A tree is a named list of nodes. Pipelines and their parts are one mutual family because an operand
may be a pipeline in parentheses; nodes nest through their bodies. Positions are kept where a message
of the evaluator or a later reader needs them.
-/
import Stencil.Template.Position
import Stencil.Text.Blank

set_option autoImplicit false

namespace Stencil

/-! ## Pipelines -/

mutual

/-- What stands in a command: a value, a way to reach one, or the name of a function. -/
inductive Operand where
  /-- The current value. -/
  | dot
  /-- Fields of the current value. -/
  | field (path : List String)
  /-- The value given to the template, or fields of it. -/
  | variable (path : List String)
  | function (name : String)
  | string (s : String)
  | int (n : Int64)
  | float (x : Float)
  | bool (b : Bool)
  | nil
  /-- A pipeline in parentheses. -/
  | pipeline (p : Pipeline)

/-- A function with its arguments, or a single operand. -/
structure Command where
  pos : Position
  args : List Operand

/-- Commands in a row, the value of each being the last argument of the next. -/
structure Pipeline where
  pos : Position
  commands : List Command

end

/-! ## Nodes -/

/-- The two actions that give their body another current value. -/
inductive Rebinding where
  /-- The body is repeated for every element. -/
  | range
  /-- The body runs once, for the value itself. -/
  | scoped
  deriving DecidableEq, Repr

mutual

/-- A piece of a template. -/
inductive Node where
  | text (s : String)
  /-- A pipeline whose value is put out. -/
  | action (p : Pipeline)
  | conditional (pos : Position) (branches : List Branch) (otherwise : Option (List Node))
  | rebind (kind : Rebinding) (pos : Position) (pipeline : Pipeline) (body : List Node)
      (otherwise : Option (List Node))
  /-- A call of another template, with the value of the pipeline or with nothing. -/
  | call (pos : Position) (name : String) (pipeline : Option Pipeline)

/-- A body that runs if its condition holds. -/
structure Branch where
  condition : Pipeline
  body : List Node

end

/-! ## Trees -/

/-- A named template. -/
structure Tree where
  name : String
  root : List Node

/-- Whether a node is text made of blanks only. -/
def Node.isBlank : Node → Bool
  | .text s => (Text.trim s.toList).isEmpty
  | _ => false

/-- Whether a template holds nothing but blanks. Such a template counts as a placeholder: it never
takes the place of one that says something. -/
def Tree.isEmpty (t : Tree) : Bool := t.root.all Node.isBlank

end Stencil
