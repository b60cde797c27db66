/-
The limit on nesting, and nothing else, sets execution apart from the natural semantics.

An execution with at most `n` bodies inside each other has the outcome that the natural semantics
derives, if a derivation gets by with `n` bodies, and otherwise it stops where one more body is
about to be entered. That one of the two is the case for every phrase is proved along the recursion
of the execution: on the number of bodies that are left, and within a body on its nodes.
-/
import Stencil.Proofs.NaturalSemantics

set_option autoImplicit false

namespace Stencil.Natural

open Stencil.Runs

variable {g : Group}

/-! ## Executing phrases with a limit -/

/-- The outcome of a phrase if at most `n` bodies may be inside each other. -/
def Phrase.run (g : Group) (n : Nat) : Phrase → Except TemplateError String
  | .body t v => g.run n t v
  | .node s dot x => s.node (g.callsBy (g.run n)) dot x
  | .nodes s dot ns => s.nodes (g.callsBy (g.run n)) dot ns
  | .branches s dot bs otherwise => do
    match ← s.branches (g.callsBy (g.run n)) dot bs with
    | some text => .ok text
    | none => s.alternative (g.callsBy (g.run n)) dot otherwise
  | .each s items ns => textOfEach (fun item => s.nodes (g.callsBy (g.run n)) item ns) items

namespace Phrase

variable {n : Nat} {s : Scope} {dot : Value}

theorem run_body_zero {t : Tree} {v : Value} : run g 0 (.body t v) = .error (.tooDeep t.name) := rfl

theorem run_body_succ {t : Tree} {v : Value} :
    run g (n + 1) (.body t v) = run g n (.nodes ⟨t.name, v, g.functions⟩ v t.root) := rfl

theorem run_node {x : Node} : run g n (.node s dot x) = s.node (g.callsBy (g.run n)) dot x := rfl

theorem run_nodes {ns : List Node} :
    run g n (.nodes s dot ns) = s.nodes (g.callsBy (g.run n)) dot ns := rfl

theorem run_conditional {pos : Position} {bs : List Branch} {otherwise : Option (List Node)} :
    run g n (.node s dot (.conditional pos bs otherwise))
      = run g n (.branches s dot bs otherwise) := by
  rw [run_node, Scope.node]
  rfl

theorem run_branches_nil {otherwise : Option (List Node)} :
    run g n (.branches s dot [] otherwise) = run g n (.nodes s dot (otherwise.getD [])) := by
  rw [run_nodes, ← alternative_eq]
  change s.branches (g.callsBy (g.run n)) dot [] >>= _ = _
  rw [Scope.branches]
  rfl

/-- A branch whose condition has a value. -/
theorem run_branches_cons {condition : Pipeline} {ns : List Node} {rest : List Branch}
    {otherwise : Option (List Node)} {v : Value} (hv : PipelineValue s dot condition (.ok v)) :
    run g n (.branches s dot (⟨condition, ns⟩ :: rest) otherwise)
      = if v.truthy then run g n (.nodes s dot ns)
        else run g n (.branches s dot rest otherwise) := by
  change s.branches (g.callsBy (g.run n)) dot (⟨condition, ns⟩ :: rest) >>= _ = _
  rw [Scope.branches, pipelineValue_iff.1 hv]
  change (if v.truthy = true then _ else _ : Except TemplateError (Option String)) >>= _ = _
  by_cases htruthy : v.truthy = true
  · -- What the branch puts out is wrapped up and taken out again by the match on it.
    rw [if_pos htruthy, if_pos htruthy, bind_assoc]
    exact bind_pure _
  · rw [if_neg htruthy, if_neg htruthy]
    rfl

/-- A repetition whose values are known. -/
theorem run_range {pos : Position} {p : Pipeline} {ns : List Node}
    {otherwise : Option (List Node)} {v : Value} (hv : PipelineValue s dot p (.ok v)) :
    run g n (.node s dot (.rebind .range pos p ns otherwise))
      = match v.elements? with
        | none => .error (.misuse s.template (.notIterable v.typeName))
        | some [] => run g n (.nodes s dot (otherwise.getD []))
        | some (item :: items) => run g n (.each s (item :: items) ns) := by
  rw [run_node, Scope.node, pipelineValue_iff.1 hv, run_nodes, ← alternative_eq]
  have hvalue : ∀ next : Value → Except TemplateError String, (.ok v >>= next) = next v :=
    fun _ => rfl
  rw [hvalue]
  cases v.elements? with
  | none => rfl
  | some items =>
    cases items with
    | nil => rfl
    | cons item items => rfl

theorem run_rebound {pos : Position} {p : Pipeline} {ns : List Node}
    {otherwise : Option (List Node)} {v : Value} (hv : PipelineValue s dot p (.ok v)) :
    run g n (.node s dot (.rebind .scoped pos p ns otherwise))
      = if v.truthy then run g n (.nodes s v ns)
        else run g n (.nodes s dot (otherwise.getD [])) := by
  rw [run_node, Scope.node, pipelineValue_iff.1 hv, alternative_eq]
  rfl

/-- A call of a template that is there, with a value. -/
theorem run_call {pos : Position} {name : String} {p : Pipeline} {t : Tree} {v : Value}
    (ht : g.tree? name = some t) (hv : PipelineValue s dot p (.ok v)) :
    run g n (.node s dot (.call pos name (some p))) = run g n (.body t v) := by
  rw [run_node, Scope.node, Group.callsBy, ht]
  change s.pipeline dot p >>= _ = _
  rw [pipelineValue_iff.1 hv]
  rfl

end Phrase

open Phrase

/-- Execution fails where the natural semantics does before anything is executed. -/
theorem run_of_fails {φ : Phrase} {e : TemplateError} (h : Fails g φ e) (n : Nat) :
    φ.run g n = .error e := by
  cases h with
  | action he => rw [run_node, node_action he, Except.map]
  | @condition s dot condition ns rest otherwise _ he =>
    change s.branches (g.callsBy (g.run n)) dot (⟨condition, ns⟩ :: rest) >>= _ = _
    rw [Scope.branches, pipelineValue_iff.1 he]
    rfl
  | @rebind s dot kind pos p ns otherwise e he =>
    cases kind
    · rw [run_node, Scope.node, pipelineValue_iff.1 he]
      rfl
    · rw [run_node, Scope.node, pipelineValue_iff.1 he]
      rfl
  | @range s dot pos p ns otherwise v hv hnone =>
    have helements : v.elements? = none :=
      Option.eq_none_iff_forall_ne_some.2 fun items h => hnone items (iterates_iff.2 h)
    rw [run_range hv, helements]
  | undefined ht =>
    rw [run_node, Scope.node, Group.callsBy, ht]
    rfl
  | @argument s dot pos name p t e ht he =>
    rw [run_node, Scope.node, Group.callsBy, ht]
    change s.pipeline dot p >>= _ = _
    rw [pipelineValue_iff.1 he]
    rfl

/-- Execution takes the same way through a phrase as the natural semantics. -/
theorem run_of_comesTo {φ ψ : Phrase} (h : ComesTo g φ ψ) (n : Nat) : φ.run g n = ψ.run g n := by
  cases h with
  | conditional => exact run_conditional
  | taken hv htruthy => rw [run_branches_cons hv, if_pos htruthy]
  | passed hv htruthy => rw [run_branches_cons hv, if_neg (Bool.eq_false_iff.1 htruthy)]
  | otherwise => exact run_branches_nil
  | range hv hitems => rw [run_range hv, iterates_iff.1 hitems]
  | rangeEmpty hv hitems => rw [run_range hv, iterates_iff.1 hitems]
  | rebound hv htruthy => rw [run_rebound hv, if_pos htruthy]
  | reboundEmpty hv htruthy => rw [run_rebound hv, if_neg (Bool.eq_false_iff.1 htruthy)]
  | call ht hv => exact run_call ht hv
  | callWithNothing ht =>
    rw [run_node, Scope.node, Group.callsBy, ht]
    rfl

/-- One phrase after another is executed in this order, up to a failure. -/
theorem run_of_splits {φ first rest : Phrase} (h : Splits φ first rest) (n : Nat) :
    φ.run g n = first.run g n >>= fun text => (rest.run g n).map (text ++ ·) := by
  cases h with
  | nodes =>
    rw [run_nodes, Scope.nodes]
    exact bind_congr fun text => bind_ok_eq_map
  | each =>
    change textOfEach _ _ = _
    rw [textOfEach]
    exact bind_congr fun text => bind_ok_eq_map

/-! ## Derivations are followed -/

/-- **A derivation that gets by with `n` bodies is what execution does.** The induction is on the
derivation; only at a body does the number of bodies that are left change. -/
theorem run_of_renders {φ : Phrase} {r : Except TemplateError String} {h : Nat}
    (hr : Renders g φ r h) : ∀ {n : Nat}, h ≤ n → φ.run g n = r := by
  induction hr with
  | text =>
    intro n _
    rw [run_node, Scope.node]
  | action hv =>
    intro n _
    rw [run_node, node_action hv, Except.map]
  | nodesNil =>
    intro n _
    rw [run_nodes, Scope.nodes]
  | eachNil =>
    intro n _
    rfl
  | failure hfails =>
    intro n _
    exact run_of_fails hfails n
  | comesTo hcomes _ ih =>
    intro n hn
    rw [run_of_comesTo hcomes n]
    exact ih hn
  | both hsplits _ _ ihfirst ihrest =>
    intro n hn
    -- One after the other, the parts have the same number of bodies around them.
    obtain ⟨hfirst, hrest⟩ := Nat.max_le.1 hn
    rw [run_of_splits hsplits n, ihfirst hfirst, ihrest hrest]
    rfl
  | first hsplits _ ih =>
    intro n hn
    rw [run_of_splits hsplits n, ih hn]
    rfl
  | body _ ih =>
    intro n hn
    -- The body uses up one of the bodies that are left.
    obtain ⟨m, rfl⟩ : ∃ m, n = m + 1 := ⟨n - 1, by omega⟩
    rw [run_body_succ]
    exact ih (by omega)

/-- **Where a body is entered below `n` others, an execution with `n` bodies stops.** -/
theorem run_of_enters {n : Nat} {φ : Phrase} {u : String} (h : Enters g n φ u) :
    φ.run g n = .error (.tooDeep u) := by
  induction h with
  | here => exact run_body_zero
  | inside _ ih => rwa [run_body_succ]
  | comesTo hcomes _ ih => rwa [run_of_comesTo hcomes]
  | first hsplits _ ih =>
    rw [run_of_splits hsplits, ih]
    rfl
  | later hsplits hfirst hle _ ih =>
    -- The part in front does not stop, because it gets by with `n` bodies.
    rw [run_of_splits hsplits, run_of_renders hfirst hle, ih]
    rfl

/-! ## No rule knows a limit -/

/-- An outcome that has nothing to do with how many bodies are inside each other. -/
def Unlimited {α : Type} (r : Except TemplateError α) : Prop := ∀ u, r ≠ .error (.tooDeep u)

namespace Unlimited

variable {α β : Type} {s : Scope} {dot : Value}

theorem ok {a : α} : Unlimited (.ok a : Except TemplateError α) := fun _ h => by cases h

/-- Of a failure, it depends on the failure only and not on what was to be computed. -/
theorem error_iff {e : TemplateError} :
    Unlimited (.error e : Except TemplateError α) ↔ ∀ u, e ≠ .tooDeep u :=
  ⟨fun h u he => h u (congrArg Except.error he), fun h u hu => h u (Except.error.inj hu)⟩

theorem bind {x : Except TemplateError α} {f : α → Except TemplateError β} (hx : Unlimited x)
    (hf : ∀ a, Unlimited (f a)) : Unlimited (x >>= f) := by
  cases x with
  | error e => exact error_iff.2 (error_iff.1 hx)
  | ok a => exact hf a

theorem callFunction {name : String} {args : List Value} :
    Unlimited (s.callFunction name args) := by
  intro u hu
  unfold Scope.callFunction at hu
  split at hu
  · cases hu
  · rename_i f _
    cases hf : f args with
    | error e => rw [hf] at hu; cases hu
    | ok v => rw [hf] at hu; cases hu

mutual

theorem operand : (o : Operand) → Unlimited (s.operand dot o)
  | .dot => by rw [Scope.operand]; exact ok
  | .field _ => by rw [Scope.operand]; exact ok
  | .variable _ => by rw [Scope.operand]; exact ok
  | .function _ => by rw [Scope.operand]; exact callFunction
  | .string _ => by rw [Scope.operand]; exact ok
  | .int _ => by rw [Scope.operand]; exact ok
  | .float _ => by rw [Scope.operand]; exact ok
  | .bool _ => by rw [Scope.operand]; exact ok
  | .nil => by rw [Scope.operand]; exact ok
  | .pipeline ⟨_, cs⟩ => by rw [Scope.operand, Scope.pipeline]; exact commands cs

theorem operands : (os : List Operand) → Unlimited (s.operands dot os)
  | [] => by rw [Scope.operands]; exact ok
  | o :: rest => by
    rw [Scope.operands]
    exact bind (operand o) fun v => bind (operands rest) fun vs => ok

theorem command : (c : Command) → {piped : Option Value} → Unlimited (s.command dot piped c)
  | ⟨_, []⟩, _ => by rw [Scope.command]; exact ok
  | ⟨pos, o :: rest⟩, piped => by
    by_cases hfunction : ∃ name, o = .function name
    · obtain ⟨name, rfl⟩ := hfunction
      rw [Scope.command]
      exact bind (operands rest) fun args => callFunction
    · rw [command_of_value fun name heq => hfunction ⟨name, heq⟩]
      split
      · exact operand o
      · intro u hu
        cases hu

theorem commands : (cs : List Command) → {piped : Option Value} →
    Unlimited (s.commands dot piped cs)
  | [], _ => by rw [Scope.commands]; exact ok
  | c :: rest, _ => by
    rw [Scope.commands]
    exact bind (command c) fun v => commands rest

end

theorem pipeline : (p : Pipeline) → Unlimited (s.pipeline dot p)
  | ⟨_, cs⟩ => by rw [Scope.pipeline]; exact commands cs

end Unlimited

/-- Nothing that the natural semantics derives is about a limit. -/
theorem Renders.unlimited {φ : Phrase} {r : Except TemplateError String} {h : Nat}
    (hr : Renders g φ r h) : Unlimited r := by
  induction hr with
  | text => exact .ok
  | action _ => exact .ok
  | nodesNil => exact .ok
  | eachNil => exact .ok
  | failure hfails =>
    have hvalue : ∀ {s : Scope} {dot : Value} {p : Pipeline} {e : TemplateError},
        PipelineValue s dot p (.error e) → ∀ u, e ≠ .tooDeep u := by
      intro s dot p e hp
      have hpipeline : Unlimited (s.pipeline dot p) := .pipeline p
      rw [pipelineValue_iff.1 hp] at hpipeline
      exact Unlimited.error_iff.1 hpipeline
    rw [Unlimited.error_iff]
    cases hfails with
    | action hp => exact hvalue hp
    | condition hp => exact hvalue hp
    | rebind hp => exact hvalue hp
    | argument _ hp => exact hvalue hp
    | range _ _ =>
      intro u hu
      cases hu
    | undefined _ =>
      intro u hu
      cases hu
  | comesTo _ _ ih => exact ih
  | @both φ first rest text r h k _ _ _ _ ihrest =>
    cases r with
    | error e => exact Unlimited.error_iff.2 (Unlimited.error_iff.1 ihrest)
    | ok others => exact .ok
  | first _ _ ih => exact ih
  | body _ ih => exact ih

/-! ## Every phrase has one of the two -/

/-- A phrase is settled with `n` bodies: what execution does is derived with at most `n` bodies, or
a body is entered below `n` others. -/
def Settled (g : Group) (n : Nat) (φ : Phrase) : Prop :=
  (∃ h ≤ n, Renders g φ (φ.run g n) h) ∨ ∃ u, Enters g n φ u

namespace Settled

variable {n : Nat} {φ ψ first rest : Phrase}

theorem of_fails {e : TemplateError} (h : Fails g φ e) : Settled g n φ := by
  left
  refine ⟨0, Nat.zero_le n, ?_⟩
  rw [run_of_fails h]
  exact .failure h

theorem of_comesTo (h : ComesTo g φ ψ) (hψ : Settled g n ψ) : Settled g n φ := by
  obtain ⟨k, hk, hr⟩ | ⟨u, hu⟩ := hψ
  · left
    refine ⟨k, hk, ?_⟩
    rw [run_of_comesTo h]
    exact .comesTo h hr
  · exact .inr ⟨u, .comesTo h hu⟩

/-- If the first part fails, the rest has no say; else what it puts out is within the limit, as the
way to the rest asks for. -/
theorem of_splits (h : Splits φ first rest) (hfirst : Settled g n first)
    (hrest : Settled g n rest) : Settled g n φ := by
  obtain ⟨k, hk, hr⟩ | ⟨u, hu⟩ := hfirst
  · cases hout : first.run g n with
    | error e =>
      rw [hout] at hr
      left
      refine ⟨k, hk, ?_⟩
      rw [run_of_splits h, hout]
      exact .first h hr
    | ok text =>
      rw [hout] at hr
      obtain ⟨l, hl, hs⟩ | ⟨u, hu⟩ := hrest
      · left
        refine ⟨max k l, Nat.max_le.2 ⟨hk, hl⟩, ?_⟩
        rw [run_of_splits h, hout]
        exact .both h hr hs
      · exact .inr ⟨u, .later h hr hk hu⟩
  · exact .inr ⟨u, .first h hu⟩

theorem nodesNil {s : Scope} {dot : Value} : Settled g n (.nodes s dot []) := by
  left
  refine ⟨0, Nat.zero_le n, ?_⟩
  rw [run_nodes, Scope.nodes]
  exact .nodesNil

theorem each {s : Scope} {ns : List Node} (hns : ∀ item, Settled g n (.nodes s item ns)) :
    (items : List Value) → Settled g n (.each s items ns)
  | [] => .inl ⟨0, Nat.zero_le n, .eachNil⟩
  | item :: items => of_splits .each (hns item) (each hns items)

mutual

/-- A node is settled if bodies are. The recursion is that of the execution. -/
theorem node (hbody : ∀ t v, Settled g n (.body t v)) {s : Scope} {dot : Value} :
    (x : Node) → Settled g n (.node s dot x)
  | .text t => by
    left
    refine ⟨0, Nat.zero_le n, ?_⟩
    rw [run_node, Scope.node]
    exact .text
  | .action p => by
    cases hp : s.pipeline dot p with
    | error e => exact of_fails (.action (pipelineValue_iff.2 hp))
    | ok v =>
      have hr : Renders g (.node s dot (.action p)) (.ok v.render) 0 :=
        .action (pipelineValue_iff.2 hp)
      left
      refine ⟨0, Nat.zero_le n, ?_⟩
      rwa [run_of_renders hr (Nat.zero_le n)]
  | .conditional pos bs otherwise =>
    of_comesTo .conditional (branches hbody (alternative hbody otherwise) bs)
  | .rebind .range pos p ns otherwise => by
    cases hp : s.pipeline dot p with
    | error e => exact of_fails (.rebind (pipelineValue_iff.2 hp))
    | ok v =>
      have hv : PipelineValue s dot p (.ok v) := pipelineValue_iff.2 hp
      cases hitems : v.elements? with
      | none =>
        -- A value without elements is none that a repetition runs over.
        refine of_fails (.range hv fun items h => ?_)
        rw [iterates_iff.1 h] at hitems
        exact absurd hitems (Option.some_ne_none items)
      | some items =>
        cases items with
        | nil =>
          exact of_comesTo (.rangeEmpty hv (iterates_iff.2 hitems)) (alternative hbody otherwise)
        | cons item items =>
          exact of_comesTo (.range hv (iterates_iff.2 hitems))
            (each (fun item => nodes hbody ns) (item :: items))
  | .rebind .scoped pos p ns otherwise => by
    cases hp : s.pipeline dot p with
    | error e => exact of_fails (.rebind (pipelineValue_iff.2 hp))
    | ok v =>
      have hv : PipelineValue s dot p (.ok v) := pipelineValue_iff.2 hp
      cases htruthy : v.truthy with
      | false => exact of_comesTo (.reboundEmpty hv htruthy) (alternative hbody otherwise)
      | true => exact of_comesTo (.rebound hv htruthy) (nodes hbody ns)
  | .call pos name p => by
    cases ht : g.tree? name with
    | none => exact of_fails (.undefined ht)
    | some t =>
      cases p with
      | none => exact of_comesTo (.callWithNothing ht) (hbody t .null)
      | some p =>
        cases hp : s.pipeline dot p with
        | error e => exact of_fails (.argument ht (pipelineValue_iff.2 hp))
        | ok v => exact of_comesTo (.call ht (pipelineValue_iff.2 hp)) (hbody t v)

theorem nodes (hbody : ∀ t v, Settled g n (.body t v)) {s : Scope} {dot : Value} :
    (ns : List Node) → Settled g n (.nodes s dot ns)
  | [] => nodesNil
  | x :: rest => of_splits .nodes (node hbody x) (nodes hbody rest)

theorem branches (hbody : ∀ t v, Settled g n (.body t v)) {s : Scope} {dot : Value}
    {otherwise : Option (List Node)} (hotherwise : Settled g n (.nodes s dot (otherwise.getD []))) :
    (bs : List Branch) → Settled g n (.branches s dot bs otherwise)
  | [] => of_comesTo .otherwise hotherwise
  | ⟨condition, ns⟩ :: rest => by
    cases hp : s.pipeline dot condition with
    | error e => exact of_fails (.condition (pipelineValue_iff.2 hp))
    | ok v =>
      have hv : PipelineValue s dot condition (.ok v) := pipelineValue_iff.2 hp
      cases htruthy : v.truthy with
      | false => exact of_comesTo (.passed hv htruthy) (branches hbody hotherwise rest)
      | true => exact of_comesTo (.taken hv htruthy) (nodes hbody ns)

theorem alternative (hbody : ∀ t v, Settled g n (.body t v)) {s : Scope} {dot : Value} :
    (otherwise : Option (List Node)) → Settled g n (.nodes s dot (otherwise.getD []))
  | none => nodesNil
  | some ns => nodes hbody ns

end

/-- Bodies are settled with any number of bodies, which is what the induction is on. -/
theorem body (n : Nat) : ∀ (t : Tree) (v : Value), Settled g n (.body t v) := by
  induction n with
  -- With no bodies left, every body is the one where execution stops.
  | zero => exact fun t v => .inr ⟨t.name, .here⟩
  | succ n ih =>
    intro t v
    have hroot : Settled g n (.nodes ⟨t.name, v, g.functions⟩ v t.root) := nodes ih t.root
    obtain ⟨h, hle, hr⟩ | ⟨u, hu⟩ := hroot
    · exact .inl ⟨h + 1, Nat.succ_le_succ hle, .body hr⟩
    · exact .inr ⟨u, .inside hu⟩

end Settled

/-! ## What execution does -/

theorem run_eq_iff {n : Nat} {φ : Phrase} {r : Except TemplateError String}
    (hφ : Settled g n φ) (hr : Unlimited r) : φ.run g n = r ↔ ∃ h ≤ n, Renders g φ r h := by
  refine ⟨fun hrun => ?_, fun ⟨h, hle, hrenders⟩ => run_of_renders hrenders hle⟩
  obtain ⟨h, hle, hrenders⟩ | ⟨u, hu⟩ := hφ
  · exact ⟨h, hle, hrun ▸ hrenders⟩
  · exact absurd (hrun.symm.trans (run_of_enters hu)) (hr u)

theorem run_eq_tooDeep_iff {n : Nat} {φ : Phrase} {u : String} (hφ : Settled g n φ) :
    φ.run g n = .error (.tooDeep u) ↔ Enters g n φ u := by
  refine ⟨fun hrun => ?_, run_of_enters⟩
  obtain ⟨h, _, hrenders⟩ | ⟨w, hw⟩ := hφ
  · exact absurd hrun (hrenders.unlimited u)
  · have heq : TemplateError.tooDeep w = .tooDeep u :=
      Except.error.inj ((run_of_enters hw).symm.trans hrun)
    rw [← TemplateError.tooDeep.inj heq]
    exact hw

/-- The natural semantics derives at most one outcome: two derivations are both followed by an
execution with enough bodies for either. -/
theorem Renders.outcome_unique {φ : Phrase} {r r' : Except TemplateError String} {h h' : Nat}
    (hr : Renders g φ r h) (hr' : Renders g φ r' h') : r = r' :=
  (run_of_renders hr (Nat.le_max_left h h')).symm.trans
    (run_of_renders hr' (Nat.le_max_right h h'))

/-! ## Executing a template by its name -/

section

variable {name : String} {v : Value} {r : Except TemplateError String} {h : Nat}

theorem executeTemplate_of_undefined (ht : g.tree? name = none) :
    g.executeTemplate name v = .error (.undefinedTemplate name g.name) := by
  rw [Group.executeTemplate, Group.callsBy, ht]
  rfl

theorem executeTemplate_of_found {t : Tree} (ht : g.tree? name = some t) :
    g.executeTemplate name v = (Phrase.body t v).run g 100 := by
  rw [Group.executeTemplate, Group.callsBy, ht]
  rfl

theorem executes_of_undefined_iff (ht : g.tree? name = none) :
    Executes g name v r h ↔ r = .error (.undefinedTemplate name g.name) ∧ h = 0 := by
  refine ⟨fun hx => ?_, fun ⟨hr, hh⟩ => ?_⟩
  · cases hx with
    | found ht' _ =>
      rw [ht] at ht'
      exact absurd ht'.symm (Option.some_ne_none _)
    | undefined _ => exact ⟨rfl, rfl⟩
  · rw [hr, hh]
    exact .undefined ht

theorem executes_of_found_iff {t : Tree} (ht : g.tree? name = some t) :
    Executes g name v r h ↔ Renders g (.body t v) r h := by
  refine ⟨fun hx => ?_, .found ht⟩
  cases hx with
  | found ht' hr =>
    rw [Option.some.inj (ht.symm.trans ht')]
    exact hr
  | undefined hnone =>
    rw [ht] at hnone
    exact absurd hnone (Option.some_ne_none _)

theorem Executes.unlimited (hx : Executes g name v r h) : Unlimited r := by
  cases hx with
  | found _ hr => exact hr.unlimited
  | undefined _ =>
    intro u hu
    cases hu

/-- Whatever happens before the limit is reached, execution agrees with the natural semantics. -/
theorem executeTemplate_eq_iff (hr : Unlimited r) :
    g.executeTemplate name v = r ↔ ∃ h ≤ 100, Executes g name v r h := by
  cases ht : g.tree? name with
  | none =>
    simp only [executes_of_undefined_iff ht]
    rw [executeTemplate_of_undefined ht]
    exact ⟨fun heq => ⟨0, Nat.zero_le 100, heq.symm, rfl⟩, fun ⟨_, _, heq, _⟩ => heq.symm⟩
  | some t =>
    simp only [executes_of_found_iff ht]
    rw [executeTemplate_of_found ht]
    exact run_eq_iff (Settled.body 100 t v) hr

theorem executeTemplate_eq_tooDeep_iff {u : String} :
    g.executeTemplate name v = .error (.tooDeep u)
      ↔ ∃ t, g.tree? name = some t ∧ Enters g 100 (.body t v) u := by
  cases ht : g.tree? name with
  | none =>
    rw [executeTemplate_of_undefined ht]
    refine ⟨fun heq => ?_, fun ⟨_, hnone, _⟩ => absurd hnone.symm (Option.some_ne_none _)⟩
    cases heq
  | some t =>
    rw [executeTemplate_of_found ht, run_eq_tooDeep_iff (Settled.body 100 t v)]
    refine ⟨fun hu => ⟨t, rfl, hu⟩, fun ⟨w, hw, hu⟩ => ?_⟩
    rw [Option.some.inj hw]
    exact hu

/-- **Execution refines the natural semantics up to one hundred bodies.** Every execution has an
outcome. It is a text, or a failure other than that of nesting too deeply, exactly if the natural
semantics derives it with at most a hundred bodies inside each other, the executed one included. It
is the failure of nesting too deeply exactly if a body is entered that has a hundred others around
it, and names the first such body. -/
theorem executeTemplate_refines (g : Group) (name : String) (v : Value) :
    ((∃ r, ∃ h ≤ 100, Executes g name v r h)
        ∨ ∃ t u, g.tree? name = some t ∧ Enters g 100 (.body t v) u)
      ∧ (∀ text, g.executeTemplate name v = .ok text ↔ ∃ h ≤ 100, Executes g name v (.ok text) h)
      ∧ (∀ e, (g.executeTemplate name v = .error e ∧ ∀ u, e ≠ .tooDeep u)
          ↔ ∃ h ≤ 100, Executes g name v (.error e) h)
      ∧ ∀ u, g.executeTemplate name v = .error (.tooDeep u)
          ↔ ∃ t, g.tree? name = some t ∧ Enters g 100 (.body t v) u := by
  refine ⟨?_, fun text => executeTemplate_eq_iff .ok, fun e => ?_,
    fun u => executeTemplate_eq_tooDeep_iff⟩
  · by_cases hlimit : ∃ u, g.executeTemplate name v = .error (.tooDeep u)
    · obtain ⟨u, hu⟩ := hlimit
      obtain ⟨t, ht, henters⟩ := executeTemplate_eq_tooDeep_iff.1 hu
      exact .inr ⟨t, u, ht, henters⟩
    · have hr : Unlimited (g.executeTemplate name v) := fun u hu => hlimit ⟨u, hu⟩
      exact .inl ⟨_, (executeTemplate_eq_iff hr).1 rfl⟩
  · refine ⟨fun ⟨heq, hlimit⟩ => (executeTemplate_eq_iff (Unlimited.error_iff.2 hlimit)).1 heq,
      fun hx => ?_⟩
    have hunlimited : Unlimited (.error e : Except TemplateError String) := by
      obtain ⟨h, _, hx⟩ := hx
      exact hx.unlimited
    exact ⟨(executeTemplate_eq_iff hunlimited).2 hx, Unlimited.error_iff.1 hunlimited⟩

end

end Stencil.Natural
