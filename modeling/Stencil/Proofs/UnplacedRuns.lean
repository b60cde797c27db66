/-
What templates put out does not depend on positions.

Executing a template reads positions for one message only, so trees that differ in nothing but
positions put out the same or fail in the same way, up to the position in that message. A group is
compared with another one whose trees differ so, and a run with one of the same depth, the calls in the
one being those in the other with the positions in their failures forgotten.
-/
import Stencil.Proofs.Mentions
import Stencil.Proofs.Unplaced

set_option autoImplicit false

namespace Stencil

/-! ## Failures -/

/-- The misuse with its place forgotten. -/
def Misuse.unplaced : Misuse → Misuse
  | .argumentToValue _ => .argumentToValue .start
  | m => m

/-- The failure with the places in it forgotten. -/
def TemplateError.unplaced : TemplateError → TemplateError
  | .parse template e => .parse template e.unplaced
  | .misuse template cause => .misuse template cause.unplaced
  | e => e

/-- An outcome of templates up to the places in failures. -/
def unplacedResult {α : Type} (x : Except TemplateError α) : Except TemplateError α :=
  x.mapError TemplateError.unplaced

theorem unplacedResult_bind {α β : Type} (x : Except TemplateError α)
    (k : α → Except TemplateError β) :
    unplacedResult (x >>= k) = unplacedResult x >>= fun a => unplacedResult (k a) := by
  cases x with
  | error e => rfl
  | ok a => rfl

/-- The calls with the places in their failures forgotten. -/
def unplacedCalls (calls : Calls) : Calls := fun name =>
  unplacedResult ((calls name).map fun run v => unplacedResult (run v))

theorem textOfEach_unplaced (f : Value → Except TemplateError String) (vs : List Value) :
    textOfEach (fun v => unplacedResult (f v)) vs = unplacedResult (textOfEach f vs) := by
  induction vs with
  | nil => rfl
  | cons v rest ih =>
    rw [textOfEach, textOfEach, unplacedResult_bind, ih]
    refine bind_congr fun text => ?_
    rw [unplacedResult_bind]
    rfl

namespace Scope

variable {s : Scope} {dot : Value}

/-! ## Pipelines -/

theorem callFunction_unplaced (name : String) (args : List Value) :
    unplacedResult (s.callFunction name args) = s.callFunction name args := by
  unfold callFunction
  cases s.functions.callee? name with
  | none => rfl
  | some f =>
    show unplacedResult ((f args).mapError _) = (f args).mapError _
    cases f args with
    | error e => rfl
    | ok v => rfl

mutual

/-- An operand has the same value wherever it stands. -/
theorem operand_unplaced : (o : Operand) →
    s.operand dot o.unplaced = unplacedResult (s.operand dot o)
  | .function name => by
    rw [Operand.unplaced, operand, callFunction_unplaced]
  | .pipeline ⟨_, cs⟩ => by
    rw [Operand.unplaced, Pipeline.unplaced, operand, operand, pipeline, pipeline]
    exact commands_unplaced cs
  | .dot => rfl
  | .field _ => rfl
  | .variable _ => rfl
  | .string _ => rfl
  | .int _ => rfl
  | .float _ => rfl
  | .bool _ => rfl
  | .nil => rfl

theorem operands_unplaced : (os : List Operand) →
    s.operands dot (Operand.unplacedAll os) = unplacedResult (s.operands dot os)
  | [] => rfl
  | o :: rest => by
    rw [Operand.unplacedAll, operands, operands, operand_unplaced o, operands_unplaced rest,
      unplacedResult_bind]
    refine bind_congr fun v => ?_
    rw [unplacedResult_bind]
    rfl

theorem command_unplaced : (c : Command) → {piped : Option Value} →
    s.command dot piped c.unplaced = unplacedResult (s.command dot piped c)
  | ⟨_, []⟩, _ => rfl
  | ⟨pos, o :: rest⟩, piped => by
    rw [Command.unplaced, Operand.unplacedAll]
    by_cases hfunction : ∃ name, o = .function name
    · obtain ⟨name, rfl⟩ := hfunction
      rw [Operand.unplaced, command, command, operands_unplaced rest, unplacedResult_bind]
      refine bind_congr fun args => ?_
      exact (callFunction_unplaced name _).symm
    · have hno : ∀ name, o ≠ .function name := fun name heq => hfunction ⟨name, heq⟩
      have hno' : ∀ name, o.unplaced ≠ .function name := by
        intro name heq
        cases o with
        | function other => exact hno other rfl
        | _ => cases heq
      have hrest : (Operand.unplacedAll rest).isEmpty = rest.isEmpty := by
        cases rest <;> rfl
      rw [Natural.command_of_value hno, Natural.command_of_value hno', operand_unplaced o, hrest]
      split
      · rfl
      · rfl

theorem commands_unplaced : (cs : List Command) → {piped : Option Value} →
    s.commands dot piped (Command.unplacedAll cs) = unplacedResult (s.commands dot piped cs)
  | [], _ => rfl
  | c :: rest, piped => by
    rw [Command.unplacedAll, commands, commands, command_unplaced c, unplacedResult_bind]
    refine bind_congr fun v => ?_
    exact commands_unplaced rest

end

theorem pipeline_unplaced (p : Pipeline) :
    s.pipeline dot p.unplaced = unplacedResult (s.pipeline dot p) := by
  obtain ⟨pos, cs⟩ := p
  rw [Pipeline.unplaced, pipeline, pipeline]
  exact commands_unplaced cs

/-! ## Nodes -/

variable {calls : Calls}

mutual

/-- A node puts out the same wherever it stands. -/
theorem node_unplaced : (n : Node) → {dot : Value} →
    s.node (unplacedCalls calls) dot n.unplaced = unplacedResult (s.node calls dot n)
  | .text t, _ => by
    rw [Node.unplaced, node, node]
    rfl
  | .action p, _ => by
    rw [Node.unplaced, node, node, pipeline_unplaced, unplacedResult_bind]
    rfl
  | .conditional pos bs otherwise, _ => by
    rw [Node.unplaced, node, node, branches_unplaced bs, alternative_unplaced otherwise,
      unplacedResult_bind]
    refine bind_congr fun text => ?_
    cases text <;> rfl
  | .rebind .range pos p body otherwise, _ => by
    rw [Node.unplaced, node, node, pipeline_unplaced, alternative_unplaced otherwise,
      unplacedResult_bind]
    refine bind_congr fun v => ?_
    rw [funext fun item => nodes_unplaced body]
    cases v.elements? with
    | none => rfl
    | some items =>
      cases items with
      | nil => rfl
      | cons item items => exact textOfEach_unplaced _ _
  | .rebind .scoped pos p body otherwise, _ => by
    rw [Node.unplaced, node, node, pipeline_unplaced, alternative_unplaced otherwise,
      unplacedResult_bind]
    refine bind_congr fun v => ?_
    rw [nodes_unplaced body]
    split
    · rfl
    · rfl
  | .call pos name p, dot => by
    rw [Node.unplaced, node, node, unplacedCalls]
    cases calls name with
    | error e => rfl
    | ok run =>
      cases p with
      | none => rfl
      | some p =>
        show (s.pipeline dot p.unplaced >>= fun v => unplacedResult (run v))
          = unplacedResult (s.pipeline dot p >>= run)
        rw [pipeline_unplaced, unplacedResult_bind]

theorem nodes_unplaced : (ns : List Node) → {dot : Value} →
    s.nodes (unplacedCalls calls) dot (Node.unplacedAll ns) = unplacedResult (s.nodes calls dot ns)
  | [], _ => by
    rw [Node.unplacedAll, nodes, nodes]
    rfl
  | n :: rest, _ => by
    rw [Node.unplacedAll, nodes, nodes, node_unplaced n, nodes_unplaced rest, unplacedResult_bind]
    refine bind_congr fun text => ?_
    rw [unplacedResult_bind]
    rfl

theorem branches_unplaced : (bs : List Branch) → {dot : Value} →
    s.branches (unplacedCalls calls) dot (Branch.unplacedAll bs)
      = unplacedResult (s.branches calls dot bs)
  | [], _ => by
    rw [Branch.unplacedAll, branches, branches]
    rfl
  | ⟨condition, body⟩ :: rest, _ => by
    rw [Branch.unplacedAll, branches, branches, pipeline_unplaced, nodes_unplaced body,
      branches_unplaced rest, unplacedResult_bind]
    refine bind_congr fun v => ?_
    split
    · rw [unplacedResult_bind]
      rfl
    · rfl

theorem alternative_unplaced : (otherwise : Option (List Node)) → {dot : Value} →
    s.alternative (unplacedCalls calls) dot (Node.unplacedAlternative otherwise)
      = unplacedResult (s.alternative calls dot otherwise)
  | none, _ => by
    rw [Node.unplacedAlternative, alternative, alternative]
    rfl
  | some body, _ => by
    rw [Node.unplacedAlternative, alternative, alternative, nodes_unplaced body]

end

end Scope

namespace Group

/-- What a tree puts out, up to places in failures, is what it does without positions. -/
theorem run_unplaced (g : Group) (depth : Nat) (t : Tree) (v : Value) :
    unplacedResult (g.run (depth + 1) t v)
      = Scope.nodes ⟨t.name, v, g.functions⟩ (unplacedCalls (g.callsBy (g.run depth))) v
          (t.root.map Node.unplaced) := by
  rw [Group.run, ← Scope.nodes_unplaced, Node.unplacedAll_eq_map]

/-- Says that two groups differ in nothing but positions, as far as execution can see. -/
structure SameUpToPlaces (g g' : Group) : Prop where
  name : g.name = g'.name
  functions : g.functions = g'.functions
  trees : ∀ name, (g.tree? name).map Tree.unplaced = (g'.tree? name).map Tree.unplaced

variable {g g' : Group}

/-- Runs give the same up to places if they do so for trees that are the same up to positions. -/
theorem SameUpToPlaces.callsBy (h : g.SameUpToPlaces g')
    {run run' : Tree → Value → Except TemplateError String}
    (hrun : ∀ {t t' : Tree} (v : Value), t.unplaced = t'.unplaced →
      unplacedResult (run t v) = unplacedResult (run' t' v)) :
    unplacedCalls (g.callsBy run) = unplacedCalls (g'.callsBy run') := by
  funext name
  have htrees := h.trees name
  unfold unplacedCalls Group.callsBy
  cases ht : g.tree? name with
  | none =>
    rw [ht] at htrees
    rw [Option.map_eq_none_iff.1 htrees.symm, h.name]
  | some t =>
    rw [ht] at htrees
    obtain ⟨t', ht', hunplaced⟩ := Option.map_eq_some_iff.1 htrees.symm
    rw [ht']
    refine congrArg Except.ok (funext fun v => ?_)
    exact hrun v hunplaced.symm

/-- Trees that are the same up to positions put out the same in groups that are, and with calls as
deep. The induction is on the depth. -/
theorem SameUpToPlaces.run (h : g.SameUpToPlaces g') (depth : Nat) {t t' : Tree} (v : Value)
    (ht : t.unplaced = t'.unplaced) :
    unplacedResult (g.run depth t v) = unplacedResult (g'.run depth t' v) := by
  induction depth generalizing t t' v with
  | zero => rw [Group.run, Group.run, (Tree.mk.inj ht).1]
  | succ depth ih =>
    obtain ⟨hname, hroot⟩ := Tree.mk.inj ht
    rw [Node.unplacedAll_eq_map, Node.unplacedAll_eq_map] at hroot
    rw [run_unplaced, run_unplaced, hname, hroot, h.functions, h.callsBy ih]

/-- **What a group puts out does not depend on positions**, but for those in messages. -/
theorem SameUpToPlaces.executeTemplate (h : g.SameUpToPlaces g') (name : String) (v : Value) :
    unplacedResult (g.executeTemplate name v) = unplacedResult (g'.executeTemplate name v) := by
  have hcalls := congrFun (h.callsBy (fun v ht => h.run depthLimit v ht)) name
  unfold unplacedCalls at hcalls
  unfold Group.executeTemplate
  revert hcalls
  cases g.callsBy (g.run depthLimit) name with
  | error e =>
    cases g'.callsBy (g'.run depthLimit) name with
    | error e' => exact fun hcalls => congrArg Except.error (Except.error.inj hcalls)
    | ok run' => exact fun hcalls => by cases hcalls
  | ok run =>
    cases g'.callsBy (g'.run depthLimit) name with
    | error e' => exact fun hcalls => by cases hcalls
    | ok run' => exact fun hcalls => congrFun (Except.ok.inj hcalls) v

end Group

end Stencil
