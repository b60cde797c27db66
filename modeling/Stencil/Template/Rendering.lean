/-
Executing templates.

What a list of nodes puts out depends on what the templates it calls put out, so it is defined with
that as a parameter. A group answers calls by its own templates, one level deeper each time; a call
below the last level is a failure, and so every execution ends. The depth is passed down and never
counted up, hence a call leaves no trace for the calls after it.
-/
import Stencil.Template.Evaluation
import Stencil.Template.Group

set_option autoImplicit false

namespace Stencil

/-- The elements that a repetition runs over: those of a list, the values of a map in the order of
its keys, and none of nothing. -/
def Value.elements? : Value → Option (List Value)
  | .list items => some items
  | .map entries => some (entries.map Prod.snd)
  | .null => some []
  | _ => none

/-- What calling the template of a name with a value puts out, the value being evaluated only if
there is such a template. -/
abbrev Calls := (name : String) → Except TemplateError (Value → Except TemplateError String)

/-- The texts that `f` puts out for all elements, one after the other. -/
def textOfEach (f : Value → Except TemplateError String) :
    List Value → Except TemplateError String
  | [] => .ok ""
  | v :: rest => do
    let text ← f v
    let others ← textOfEach f rest
    .ok (text ++ others)

namespace Scope

mutual

/-- What a node puts out. -/
def node (s : Scope) (calls : Calls) (dot : Value) : Node → Except TemplateError String
  | .text t => .ok t
  | .action p => do
    let v ← s.pipeline dot p
    .ok v.render
  | .conditional _ branches otherwise => do
    match ← s.branches calls dot branches with
    | some text => .ok text
    | none => s.alternative calls dot otherwise
  | .rebind .range _ p body otherwise => do
    let v ← s.pipeline dot p
    match v.elements? with
    | none => .error (.misuse s.template (.notIterable v.typeName))
    | some [] => s.alternative calls dot otherwise
    | some items => textOfEach (fun item => s.nodes calls item body) items
  | .rebind .scoped _ p body otherwise => do
    let v ← s.pipeline dot p
    if v.truthy then s.nodes calls v body else s.alternative calls dot otherwise
  | .call _ name p => do
    -- A template that does not exist is reported before its argument is looked at.
    let run ← calls name
    match p with
    | some p => do
      let v ← s.pipeline dot p
      run v
    | none => run .null

/-- What nodes put out, one after the other. -/
def nodes (s : Scope) (calls : Calls) (dot : Value) : List Node → Except TemplateError String
  | [] => .ok ""
  | n :: rest => do
    let text ← s.node calls dot n
    let others ← s.nodes calls dot rest
    .ok (text ++ others)

/-- What the first branch puts out whose condition holds, if there is one. -/
def branches (s : Scope) (calls : Calls) (dot : Value) :
    List Branch → Except TemplateError (Option String)
  | [] => .ok none
  | ⟨condition, body⟩ :: rest => do
    let v ← s.pipeline dot condition
    if v.truthy then do
      let text ← s.nodes calls dot body
      .ok (some text)
    else s.branches calls dot rest

/-- What an alternative puts out, if there is one. -/
def alternative (s : Scope) (calls : Calls) (dot : Value) :
    Option (List Node) → Except TemplateError String
  | none => .ok ""
  | some body => s.nodes calls dot body

end

end Scope

namespace Group

/-- Answers calls by the templates of a group, each executed by `run`. -/
def callsBy (g : Group) (run : Tree → Value → Except TemplateError String) : Calls := fun name =>
  match g.tree? name with
  | none => .error (.undefinedTemplate name g.name)
  | some t => .ok (run t)

/-- What a template puts out for a value that is both its top and its current value, if at most
`depth` templates may be inside each other. -/
def run (g : Group) : (depth : Nat) → Tree → Value → Except TemplateError String
  | 0, t, _ => .error (.tooDeep t.name)
  | depth + 1, t, v => Scope.nodes ⟨t.name, v, g.functions⟩ (g.callsBy (g.run depth)) v t.root

/-- What the template of a name puts out for a value. -/
def executeTemplate (g : Group) (name : String) (v : Value) : Except TemplateError String := do
  let run ← g.callsBy (g.run depthLimit) name
  run v

/-- What the entry of a group puts out for a value. -/
def execute (g : Group) (v : Value) : Except TemplateError String := g.executeTemplate g.entry v

end Group

end Stencil
