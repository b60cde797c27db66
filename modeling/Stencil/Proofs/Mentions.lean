/-
What a template mentions.

The only names that executing a template looks up are those of the templates that it calls and of
the functions that stand in its pipelines, and both can be read off the tree. They are collected
here from every place where they can stand: arguments, parentheses, conditions, bodies and last
alternatives. A phrase has the same outcome with two tables of functions and two ways to answer
calls if these agree on what the phrase mentions, which is proved along the recursion of the
evaluation, for failures as well as for values.
-/
import Stencil.Proofs.NaturalSemantics

set_option autoImplicit false

namespace Stencil

/-- A name that a template refers to. -/
inductive Mention where
  /-- A template that is called. -/
  | template (name : String)
  | function (name : String)
  deriving DecidableEq

/-! ## Pipelines -/

mutual

/-- What an operand mentions. -/
def Operand.mentions : Operand → List Mention
  | .function name => [.function name]
  | .pipeline p => p.mentions
  | .dot => []
  | .field _ => []
  | .variable _ => []
  | .string _ => []
  | .int _ => []
  | .float _ => []
  | .bool _ => []
  | .nil => []

/-- What operands mention, one after the other. -/
def Operand.mentionsOfAll : List Operand → List Mention
  | [] => []
  | o :: rest => o.mentions ++ Operand.mentionsOfAll rest

/-- What a command mentions. -/
def Command.mentions : Command → List Mention
  | ⟨_, args⟩ => Operand.mentionsOfAll args

/-- What commands mention, one after the other. -/
def Command.mentionsOfAll : List Command → List Mention
  | [] => []
  | c :: rest => c.mentions ++ Command.mentionsOfAll rest

/-- What a pipeline mentions. -/
def Pipeline.mentions : Pipeline → List Mention
  | ⟨_, cs⟩ => Command.mentionsOfAll cs

end

/-! ## Nodes -/

mutual

/-- What a node mentions. -/
def Node.mentions : Node → List Mention
  | .text _ => []
  | .action p => p.mentions
  | .conditional _ branches otherwise =>
    Branch.mentionsOfAll branches ++ Node.mentionsOfAlternative otherwise
  | .rebind _ _ p body otherwise =>
    p.mentions ++ Node.mentionsOfAll body ++ Node.mentionsOfAlternative otherwise
  | .call _ name p => .template name :: (p.map Pipeline.mentions).getD []

/-- What nodes mention, one after the other. -/
def Node.mentionsOfAll : List Node → List Mention
  | [] => []
  | n :: rest => n.mentions ++ Node.mentionsOfAll rest

/-- What the last alternative of a construct mentions, if it has one. -/
def Node.mentionsOfAlternative : Option (List Node) → List Mention
  | none => []
  | some body => Node.mentionsOfAll body

/-- What branches mention, the conditions and the bodies. -/
def Branch.mentionsOfAll : List Branch → List Mention
  | [] => []
  | ⟨condition, body⟩ :: rest =>
    condition.mentions ++ Node.mentionsOfAll body ++ Branch.mentionsOfAll rest

end

/-- What a template mentions. -/
def Tree.mentions (t : Tree) : List Mention := Node.mentionsOfAll t.root

/-! ## Evaluation looks up no other functions -/

namespace Scope

variable {s : Scope} {functions : FuncTable} {dot : Value}

theorem callFunction_congr {name : String} {args : List Value}
    (h : s.functions.get? name = functions.get? name) :
    s.callFunction name args = ({ s with functions } : Scope).callFunction name args := by
  unfold callFunction FuncTable.callee?
  rw [h]

mutual

/-- An operand has the same value with all functions that agree on what it mentions. -/
theorem operand_congr : (o : Operand) →
    (∀ name, .function name ∈ o.mentions → s.functions.get? name = functions.get? name) →
      s.operand dot o = ({ s with functions } : Scope).operand dot o
  | .function name, h => by
    rw [operand, operand]
    exact callFunction_congr (h name (by simp [Operand.mentions]))
  | .pipeline ⟨_, cs⟩, h => by
    rw [Operand.mentions, Pipeline.mentions] at h
    rw [operand, operand, pipeline, pipeline]
    exact commands_congr cs h
  | .dot, _ => by rw [operand, operand]
  | .field _, _ => by rw [operand, operand]
  | .variable _, _ => by rw [operand, operand]
  | .string _, _ => by rw [operand, operand]
  | .int _, _ => by rw [operand, operand]
  | .float _, _ => by rw [operand, operand]
  | .bool _, _ => by rw [operand, operand]
  | .nil, _ => by rw [operand, operand]

theorem operands_congr : (os : List Operand) →
    (∀ name, .function name ∈ Operand.mentionsOfAll os →
      s.functions.get? name = functions.get? name) →
      s.operands dot os = ({ s with functions } : Scope).operands dot os
  | [], _ => by rw [operands, operands]
  | o :: rest, h => by
    rw [Operand.mentionsOfAll] at h
    rw [operands, operands, operand_congr o fun name hname => h name (List.mem_append_left _ hname),
      operands_congr rest fun name hname => h name (List.mem_append_right _ hname)]

theorem command_congr : (c : Command) → {piped : Option Value} →
    (∀ name, .function name ∈ c.mentions → s.functions.get? name = functions.get? name) →
      s.command dot piped c = ({ s with functions } : Scope).command dot piped c
  | ⟨_, []⟩, _, _ => by rw [command, command]
  | ⟨pos, o :: rest⟩, piped, h => by
    rw [Command.mentions, Operand.mentionsOfAll] at h
    by_cases hfunction : ∃ name, o = .function name
    · obtain ⟨name, rfl⟩ := hfunction
      have hrest := operands_congr rest fun name hname => h name (List.mem_append_right _ hname)
      rw [command, command, hrest]
      refine bind_congr fun args => ?_
      exact callFunction_congr (h name (by simp [Operand.mentions]))
    · have hno : ∀ name, o ≠ .function name := fun name heq => hfunction ⟨name, heq⟩
      rw [Natural.command_of_value hno, Natural.command_of_value hno,
        operand_congr o fun name hname => h name (List.mem_append_left _ hname)]

theorem commands_congr : (cs : List Command) → {piped : Option Value} →
    (∀ name, .function name ∈ Command.mentionsOfAll cs →
      s.functions.get? name = functions.get? name) →
      s.commands dot piped cs = ({ s with functions } : Scope).commands dot piped cs
  | [], _, _ => by rw [commands, commands]
  | c :: rest, piped, h => by
    rw [Command.mentionsOfAll] at h
    rw [commands, commands, command_congr c fun name hname => h name (List.mem_append_left _ hname)]
    refine bind_congr fun v => ?_
    exact commands_congr rest fun name hname => h name (List.mem_append_right _ hname)

end

theorem pipeline_congr {p : Pipeline}
    (h : ∀ name, .function name ∈ p.mentions → s.functions.get? name = functions.get? name) :
    s.pipeline dot p = ({ s with functions } : Scope).pipeline dot p := by
  obtain ⟨pos, cs⟩ := p
  rw [Pipeline.mentions] at h
  rw [pipeline, pipeline]
  exact commands_congr cs h

/-! ## Execution looks up no other templates -/

/-- Says that functions and calls can stand for others as far as something mentions them. -/
structure Alike (s : Scope) (functions : FuncTable) (calls calls' : Calls) (ms : List Mention) :
    Prop where
  functions : ∀ name, .function name ∈ ms → s.functions.get? name = functions.get? name
  calls : ∀ name, .template name ∈ ms → calls name = calls' name

variable {calls calls' : Calls} {ms ms' : List Mention}

theorem Alike.left (h : Alike s functions calls calls' (ms ++ ms')) :
    Alike s functions calls calls' ms :=
  ⟨fun name hname => h.functions name (List.mem_append_left _ hname),
    fun name hname => h.calls name (List.mem_append_left _ hname)⟩

theorem Alike.right (h : Alike s functions calls calls' (ms ++ ms')) :
    Alike s functions calls calls' ms' :=
  ⟨fun name hname => h.functions name (List.mem_append_right _ hname),
    fun name hname => h.calls name (List.mem_append_right _ hname)⟩

mutual

/-- A node puts out the same with everything that agrees on what it mentions. -/
theorem node_congr : (n : Node) → {dot : Value} → Alike s functions calls calls' n.mentions →
    s.node calls dot n = ({ s with functions } : Scope).node calls' dot n
  | .text t, _, _ => by rw [node, node]
  | .action p, _, h => by
    rw [Node.mentions] at h
    rw [node, node, pipeline_congr h.functions]
  | .conditional pos bs otherwise, _, h => by
    rw [Node.mentions] at h
    rw [node, node, branches_congr bs h.left, alternative_congr otherwise h.right]
  | .rebind .range pos p body otherwise, _, h => by
    rw [Node.mentions] at h
    rw [node, node, pipeline_congr h.left.left.functions, alternative_congr otherwise h.right]
    refine bind_congr fun v => ?_
    rw [funext fun item => nodes_congr body h.left.right]
  | .rebind .scoped pos p body otherwise, _, h => by
    rw [Node.mentions] at h
    rw [node, node, pipeline_congr h.left.left.functions, alternative_congr otherwise h.right]
    refine bind_congr fun v => ?_
    rw [nodes_congr body h.left.right]
  | .call pos name none, _, h => by
    rw [Node.mentions] at h
    rw [node, node, h.calls name List.mem_cons_self]
  | .call pos name (some p), dot, h => by
    rw [Node.mentions] at h
    have hp : ∀ name, .function name ∈ p.mentions → s.functions.get? name = functions.get? name :=
      fun name hname => h.functions name (List.mem_cons_of_mem _ hname)
    rw [node, node, h.calls name List.mem_cons_self]
    refine bind_congr fun run => ?_
    show (s.pipeline dot p >>= run) = _
    rw [pipeline_congr hp]

theorem nodes_congr : (ns : List Node) → {dot : Value} →
    Alike s functions calls calls' (Node.mentionsOfAll ns) →
      s.nodes calls dot ns = ({ s with functions } : Scope).nodes calls' dot ns
  | [], _, _ => by rw [nodes, nodes]
  | n :: rest, _, h => by
    rw [Node.mentionsOfAll] at h
    rw [nodes, nodes, node_congr n h.left, nodes_congr rest h.right]

theorem branches_congr : (bs : List Branch) → {dot : Value} →
    Alike s functions calls calls' (Branch.mentionsOfAll bs) →
      s.branches calls dot bs = ({ s with functions } : Scope).branches calls' dot bs
  | [], _, _ => by rw [branches, branches]
  | ⟨condition, body⟩ :: rest, _, h => by
    rw [Branch.mentionsOfAll] at h
    rw [branches, branches, pipeline_congr h.left.left.functions, nodes_congr body h.left.right,
      branches_congr rest h.right]

theorem alternative_congr : (otherwise : Option (List Node)) → {dot : Value} →
    Alike s functions calls calls' (Node.mentionsOfAlternative otherwise) →
      s.alternative calls dot otherwise = ({ s with functions } : Scope).alternative calls' dot otherwise
  | none, _, _ => by rw [alternative, alternative]
  | some body, _, h => by
    rw [Node.mentionsOfAlternative] at h
    rw [alternative, alternative, nodes_congr body h]

end

end Scope

end Stencil
