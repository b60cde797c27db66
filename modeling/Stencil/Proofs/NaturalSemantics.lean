/-
A natural semantics of templates, without a limit on nesting.

The rules say what a phrase puts out, or with which failure it ends, from what its parts do, and
nothing in them stops a template that calls itself for ever: it just has no derivation. Parts are
taken in order and the first failure is the outcome. The number carried along is how many bodies of
templates a derivation has inside each other; no rule asks for it.

The last relation follows the same order to the point where a body is entered that has a given
number of bodies around it. This is what a limit on nesting has to notice, and it is stated apart
because phrases without a derivation have such a point as well.
-/
import Stencil.Proofs.Runs
import Stencil.Template.Rendering

set_option autoImplicit false

namespace Stencil.Natural

open Stencil.Runs

/-! ## Values of pipelines -/

/-- The outcome of a call: that of the function in the table, or else of the built-in one. -/
inductive CallValue (s : Scope) (name : String) (args : List Value) :
    Except TemplateError Value → Prop where
  | bound {f : Function} :
      s.functions.get? name = some f →
      CallValue s name args ((f args).mapError (.function s.template name))
  | builtin {b : Builtin} :
      s.functions.get? name = none →
      Builtin.ofName? name = some b →
      CallValue s name args ((b.apply args).mapError (.function s.template name))
  | undefined :
      s.functions.get? name = none →
      Builtin.ofName? name = none →
      CallValue s name args (.error (.misuse s.template (.undefinedFunction name)))

mutual

/-- The outcome of an operand. -/
inductive OperandValue (s : Scope) (dot : Value) : Operand → Except TemplateError Value → Prop where
  | dot : OperandValue s dot .dot (.ok dot)
  | field {path : List String} {v : Value} :
      dot.getPath? path = some v → OperandValue s dot (.field path) (.ok v)
  | fieldMissing {path : List String} :
      dot.getPath? path = none → OperandValue s dot (.field path) (.ok .null)
  | top {path : List String} {v : Value} :
      s.top.getPath? path = some v → OperandValue s dot (.variable path) (.ok v)
  | topMissing {path : List String} :
      s.top.getPath? path = none → OperandValue s dot (.variable path) (.ok .null)
  | function {name : String} {r : Except TemplateError Value} :
      CallValue s name [] r → OperandValue s dot (.function name) r
  | string {t : String} : OperandValue s dot (.string t) (.ok (.string t))
  | int {n : Int64} : OperandValue s dot (.int n) (.ok (.int n))
  | float {x : Float} : OperandValue s dot (.float x) (.ok (.float x))
  | bool {b : Bool} : OperandValue s dot (.bool b) (.ok (.bool b))
  | nil : OperandValue s dot .nil (.ok .null)
  | pipeline {pos : Position} {cs : List Command} {r : Except TemplateError Value} :
      CommandsValue s dot none cs r → OperandValue s dot (.pipeline ⟨pos, cs⟩) r

/-- The outcome of operands that are arguments, from left to right. -/
inductive OperandsValue (s : Scope) (dot : Value) :
    List Operand → Except TemplateError (List Value) → Prop where
  | nil : OperandsValue s dot [] (.ok [])
  | cons {o : Operand} {rest : List Operand} {v : Value} {r : Except TemplateError (List Value)} :
      OperandValue s dot o (.ok v) → OperandsValue s dot rest r →
      OperandsValue s dot (o :: rest) (r.map (v :: ·))
  | failure {o : Operand} {rest : List Operand} {e : TemplateError} :
      OperandValue s dot o (.error e) → OperandsValue s dot (o :: rest) (.error e)

/-- The outcome of a command, to which a value may be piped. Only a function takes arguments. -/
inductive CommandValue (s : Scope) (dot : Value) :
    Option Value → Command → Except TemplateError Value → Prop where
  | empty {piped : Option Value} {pos : Position} : CommandValue s dot piped ⟨pos, []⟩ (.ok .null)
  | call {piped : Option Value} {pos : Position} {name : String} {rest : List Operand}
      {args : List Value} {r : Except TemplateError Value} :
      OperandsValue s dot rest (.ok args) → CallValue s name (args ++ piped.toList) r →
      CommandValue s dot piped ⟨pos, .function name :: rest⟩ r
  | failure {piped : Option Value} {pos : Position} {name : String} {rest : List Operand}
      {e : TemplateError} :
      OperandsValue s dot rest (.error e) →
      CommandValue s dot piped ⟨pos, .function name :: rest⟩ (.error e)
  | operand {pos : Position} {o : Operand} {r : Except TemplateError Value} :
      (∀ name, o ≠ .function name) → OperandValue s dot o r →
      CommandValue s dot none ⟨pos, [o]⟩ r
  | noFunction {piped : Option Value} {pos : Position} {o : Operand} {rest : List Operand} :
      (∀ name, o ≠ .function name) → (rest ≠ [] ∨ piped ≠ none) →
      CommandValue s dot piped ⟨pos, o :: rest⟩
        (.error (.misuse s.template (.argumentToValue pos)))

/-- The outcome of commands in a row, each value being piped to the next command. -/
inductive CommandsValue (s : Scope) (dot : Value) :
    Option Value → List Command → Except TemplateError Value → Prop where
  | nothing : CommandsValue s dot none [] (.ok .null)
  | last {v : Value} : CommandsValue s dot (some v) [] (.ok v)
  | cons {piped : Option Value} {c : Command} {rest : List Command} {v : Value}
      {r : Except TemplateError Value} :
      CommandValue s dot piped c (.ok v) → CommandsValue s dot (some v) rest r →
      CommandsValue s dot piped (c :: rest) r
  | failure {piped : Option Value} {c : Command} {rest : List Command} {e : TemplateError} :
      CommandValue s dot piped c (.error e) →
      CommandsValue s dot piped (c :: rest) (.error e)

end

/-- The outcome of a pipeline. -/
def PipelineValue (s : Scope) (dot : Value) (p : Pipeline) (r : Except TemplateError Value) :
    Prop :=
  CommandsValue s dot none p.commands r

/-! ## Values agree with their evaluation -/

theorem callValue_iff {s : Scope} {name : String} {args : List Value}
    {r : Except TemplateError Value} :
    CallValue s name args r ↔ s.callFunction name args = r := by
  unfold Scope.callFunction FuncTable.callee?
  refine ⟨fun h => ?_, fun h => ?_⟩
  · cases h with
    | bound hbound => rw [hbound, Option.some_or]
    | builtin hnone hbuiltin =>
      rw [hnone, hbuiltin, Option.none_or, Option.map_some]
    | undefined hnone hbuiltin => rw [hnone, hbuiltin, Option.none_or, Option.map_none]
  · cases hbound : s.functions.get? name with
    | some f =>
      rw [hbound, Option.some_or] at h
      rw [← h]
      exact .bound hbound
    | none =>
      cases hbuiltin : Builtin.ofName? name with
      | some b =>
        rw [hbound, hbuiltin, Option.none_or, Option.map_some] at h
        rw [← h]
        exact .builtin hbound hbuiltin
      | none =>
        rw [hbound, hbuiltin, Option.none_or, Option.map_none] at h
        rw [← h]
        exact .undefined hbound hbuiltin

/-- A command that calls nothing is a single operand, with nothing piped in. -/
theorem command_of_value {s : Scope} {dot : Value} {piped : Option Value} {pos : Position}
    {o : Operand} {rest : List Operand} (hno : ∀ name, o ≠ .function name) :
    s.command dot piped ⟨pos, o :: rest⟩
      = if (rest.isEmpty && piped.isNone) = true then s.operand dot o
        else .error (.misuse s.template (.argumentToValue pos)) := by
  rw [Scope.command]
  exact hno

mutual

/-- The rules give an operand the value that it evaluates to, and no other one. The recursion is
that of the evaluation; the rules are inverted at each form. -/
theorem operandValue_iff {s : Scope} {dot : Value} :
    (o : Operand) → {r : Except TemplateError Value} →
      (OperandValue s dot o r ↔ s.operand dot o = r)
  | .dot, r => by
    rw [Scope.operand]
    exact ⟨fun h => by cases h; rfl, fun h => h ▸ .dot⟩
  | .field path, r => by
    rw [Scope.operand, Scope.fieldOf]
    refine ⟨fun h => ?_, fun h => ?_⟩
    · cases h with
      | field hpath => rw [hpath, Option.getD_some]
      | fieldMissing hpath => rw [hpath, Option.getD_none]
    · cases hpath : dot.getPath? path with
      | some v => rw [← h, hpath, Option.getD_some]; exact .field hpath
      | none => rw [← h, hpath, Option.getD_none]; exact .fieldMissing hpath
  | .variable path, r => by
    rw [Scope.operand, Scope.fieldOf]
    refine ⟨fun h => ?_, fun h => ?_⟩
    · cases h with
      | top hpath => rw [hpath, Option.getD_some]
      | topMissing hpath => rw [hpath, Option.getD_none]
    · cases hpath : s.top.getPath? path with
      | some v => rw [← h, hpath, Option.getD_some]; exact .top hpath
      | none => rw [← h, hpath, Option.getD_none]; exact .topMissing hpath
  | .function name, r => by
    rw [Scope.operand, ← callValue_iff]
    exact ⟨fun h => by cases h; assumption, .function⟩
  | .string t, r => by
    rw [Scope.operand]
    exact ⟨fun h => by cases h; rfl, fun h => h ▸ .string⟩
  | .int n, r => by
    rw [Scope.operand]
    exact ⟨fun h => by cases h; rfl, fun h => h ▸ .int⟩
  | .float x, r => by
    rw [Scope.operand]
    exact ⟨fun h => by cases h; rfl, fun h => h ▸ .float⟩
  | .bool b, r => by
    rw [Scope.operand]
    exact ⟨fun h => by cases h; rfl, fun h => h ▸ .bool⟩
  | .nil, r => by
    rw [Scope.operand]
    exact ⟨fun h => by cases h; rfl, fun h => h ▸ .nil⟩
  | .pipeline ⟨pos, cs⟩, r => by
    rw [Scope.operand, Scope.pipeline, ← commandsValue_iff cs]
    exact ⟨fun h => by cases h; assumption, .pipeline⟩

/-- `operandValue_iff` for arguments. -/
theorem operandsValue_iff {s : Scope} {dot : Value} :
    (os : List Operand) → {r : Except TemplateError (List Value)} →
      (OperandsValue s dot os r ↔ s.operands dot os = r)
  | [], r => by
    rw [Scope.operands]
    exact ⟨fun h => by cases h; rfl, fun h => h ▸ .nil⟩
  | o :: rest, r => by
    rw [Scope.operands]
    refine ⟨fun h => ?_, fun h => ?_⟩
    · cases h with
      | cons ho hrest =>
        rw [(operandValue_iff o).1 ho, (operandsValue_iff rest).1 hrest]
        exact bind_ok_eq_map
      | failure ho => rw [(operandValue_iff o).1 ho]; rfl
    · cases ho : s.operand dot o with
      | error e =>
        rw [← h, ho]
        exact .failure ((operandValue_iff o).2 ho)
      | ok v =>
        rw [ho] at h
        rw [← h]
        change OperandsValue s dot (o :: rest) (s.operands dot rest >>= fun vs => .ok (v :: vs))
        rw [bind_ok_eq_map]
        exact .cons ((operandValue_iff o).2 ho) ((operandsValue_iff rest).2 rfl)

/-- `operandValue_iff` for commands. -/
theorem commandValue_iff {s : Scope} {dot : Value} :
    (c : Command) → {piped : Option Value} → {r : Except TemplateError Value} →
      (CommandValue s dot piped c r ↔ s.command dot piped c = r)
  | ⟨pos, []⟩, piped, r => by
    rw [Scope.command]
    exact ⟨fun h => by cases h; rfl, fun h => h ▸ .empty⟩
  | ⟨pos, o :: rest⟩, piped, r => by
    by_cases hfunction : ∃ name, o = .function name
    · obtain ⟨name, rfl⟩ := hfunction
      rw [Scope.command]
      -- The last two rules are for commands that do not begin with a function.
      refine ⟨fun h => ?_, fun h => ?_⟩
      · cases h with
        | call hargs hcall =>
          rw [(operandsValue_iff rest).1 hargs]
          exact callValue_iff.1 hcall
        | failure hargs => rw [(operandsValue_iff rest).1 hargs]; rfl
        | operand hno _ => exact absurd rfl (hno name)
        | noFunction hno _ => exact absurd rfl (hno name)
      · cases hargs : s.operands dot rest with
        | error e =>
          rw [← h, hargs]
          exact .failure ((operandsValue_iff rest).2 hargs)
        | ok args =>
          rw [hargs] at h
          exact .call ((operandsValue_iff rest).2 hargs) (callValue_iff.2 h)
    · have hno : ∀ name, o ≠ .function name := fun name heq => hfunction ⟨name, heq⟩
      rw [command_of_value hno]
      by_cases halone : rest = [] ∧ piped = none
      · obtain ⟨rfl, rfl⟩ := halone
        -- The first two rules are for functions, and nothing here asks for one.
        change _ ↔ s.operand dot o = r
        rw [← operandValue_iff o]
        refine ⟨fun h => ?_, .operand hno⟩
        cases h with
        | call _ _ => exact absurd rfl (hno _)
        | failure _ => exact absurd rfl (hno _)
        | operand _ ho => exact ho
        | noFunction _ hmore => exact absurd hmore (by simp)
      · rw [if_neg (by simpa using halone)]
        refine ⟨fun h => ?_, fun h => h ▸ .noFunction hno (Decidable.not_and_iff_or_not.1 halone)⟩
        cases h with
        | call _ _ => exact absurd rfl (hno _)
        | failure _ => exact absurd rfl (hno _)
        | operand _ _ => exact absurd ⟨rfl, rfl⟩ halone
        | noFunction _ _ => rfl

/-- `operandValue_iff` for commands in a row. -/
theorem commandsValue_iff {s : Scope} {dot : Value} :
    (cs : List Command) → {piped : Option Value} → {r : Except TemplateError Value} →
      (CommandsValue s dot piped cs r ↔ s.commands dot piped cs = r)
  | [], none, r => by
    rw [Scope.commands]
    exact ⟨fun h => by cases h; rfl, fun h => h ▸ .nothing⟩
  | [], some v, r => by
    rw [Scope.commands]
    exact ⟨fun h => by cases h; rfl, fun h => h ▸ .last⟩
  | c :: rest, piped, r => by
    rw [Scope.commands]
    refine ⟨fun h => ?_, fun h => ?_⟩
    · cases h with
      | cons hc hrest =>
        rw [(commandValue_iff c).1 hc]
        exact (commandsValue_iff rest).1 hrest
      | failure hc => rw [(commandValue_iff c).1 hc]; rfl
    · cases hc : s.command dot piped c with
      | error e =>
        rw [← h, hc]
        exact .failure ((commandValue_iff c).2 hc)
      | ok v =>
        rw [hc] at h
        exact .cons ((commandValue_iff c).2 hc) ((commandsValue_iff rest).2 h)

end

theorem pipelineValue_iff {s : Scope} {dot : Value} {p : Pipeline}
    {r : Except TemplateError Value} :
    PipelineValue s dot p r ↔ s.pipeline dot p = r := by
  obtain ⟨pos, cs⟩ := p
  rw [Scope.pipeline]
  exact commandsValue_iff cs

/-- An action puts out the value of its pipeline, or fails as its pipeline does. -/
theorem node_action {s : Scope} {calls : Calls} {dot : Value} {p : Pipeline}
    {r : Except TemplateError Value} (hp : PipelineValue s dot p r) :
    s.node calls dot (.action p) = r.map Value.render := by
  rw [Scope.node, pipelineValue_iff.1 hp]
  exact bind_ok_eq_map

/-- What is left if no body is taken is executed like any other nodes. -/
theorem alternative_eq {s : Scope} {calls : Calls} {dot : Value} {otherwise : Option (List Node)} :
    s.alternative calls dot otherwise = s.nodes calls dot (otherwise.getD []) := by
  cases otherwise with
  | none => rw [Scope.alternative, Option.getD_none, Scope.nodes]
  | some ns => rw [Scope.alternative, Option.getD_some]

/-! ## Phrases -/

/-- The values that a repetition runs over. -/
inductive Iterates : Value → List Value → Prop where
  | list {items : List Value} : Iterates (.list items) items
  | map {entries : List (String × Value)} : Iterates (.map entries) (entries.map Prod.snd)
  | null : Iterates .null []

theorem iterates_iff {v : Value} {items : List Value} :
    Iterates v items ↔ v.elements? = some items := by
  refine ⟨fun h => by cases h <;> rfl, fun h => ?_⟩
  cases v with
  | null => cases h; exact .null
  | list _ => cases h; exact .list
  | map _ => cases h; exact .map
  | bool _ => cases h
  | int _ => cases h
  | float _ => cases h
  | string _ => cases h

/-- What can be executed, with the values that it is executed for. -/
inductive Phrase where
  /-- The body of a template that is called with a value. -/
  | body (t : Tree) (v : Value)
  | node (s : Scope) (dot : Value) (n : Node)
  | nodes (s : Scope) (dot : Value) (ns : List Node)
  /-- Branches that are tried in order, and what is left if none is taken. -/
  | branches (s : Scope) (dot : Value) (bs : List Branch) (otherwise : Option (List Node))
  /-- A body that is repeated for every item. -/
  | each (s : Scope) (items : List Value) (body : List Node)

/-- A phrase ends with a failure before any of it is executed. -/
inductive Fails (g : Group) : Phrase → TemplateError → Prop where
  | action {s : Scope} {dot : Value} {p : Pipeline} {e : TemplateError} :
      PipelineValue s dot p (.error e) → Fails g (.node s dot (.action p)) e
  | condition {s : Scope} {dot : Value} {condition : Pipeline} {body : List Node}
      {rest : List Branch} {otherwise : Option (List Node)} {e : TemplateError} :
      PipelineValue s dot condition (.error e) →
      Fails g (.branches s dot (⟨condition, body⟩ :: rest) otherwise) e
  | rebind {s : Scope} {dot : Value} {kind : Rebinding} {pos : Position} {p : Pipeline}
      {body : List Node} {otherwise : Option (List Node)} {e : TemplateError} :
      PipelineValue s dot p (.error e) →
      Fails g (.node s dot (.rebind kind pos p body otherwise)) e
  | range {s : Scope} {dot : Value} {pos : Position} {p : Pipeline} {body : List Node}
      {otherwise : Option (List Node)} {v : Value} :
      PipelineValue s dot p (.ok v) → (∀ items, ¬ Iterates v items) →
      Fails g (.node s dot (.rebind .range pos p body otherwise))
        (.misuse s.template (.notIterable v.typeName))
  /-- The template is looked for before the argument is looked at. -/
  | undefined {s : Scope} {dot : Value} {pos : Position} {name : String} {p : Option Pipeline} :
      g.tree? name = none →
      Fails g (.node s dot (.call pos name p)) (.undefinedTemplate name g.name)
  | argument {s : Scope} {dot : Value} {pos : Position} {name : String} {p : Pipeline} {t : Tree}
      {e : TemplateError} :
      g.tree? name = some t → PipelineValue s dot p (.error e) →
      Fails g (.node s dot (.call pos name (some p))) e

/-- Executing a phrase comes down to executing another one. -/
inductive ComesTo (g : Group) : Phrase → Phrase → Prop where
  | conditional {s : Scope} {dot : Value} {pos : Position} {bs : List Branch}
      {otherwise : Option (List Node)} :
      ComesTo g (.node s dot (.conditional pos bs otherwise)) (.branches s dot bs otherwise)
  | taken {s : Scope} {dot : Value} {condition : Pipeline} {body : List Node} {rest : List Branch}
      {otherwise : Option (List Node)} {v : Value} :
      PipelineValue s dot condition (.ok v) → v.truthy = true →
      ComesTo g (.branches s dot (⟨condition, body⟩ :: rest) otherwise) (.nodes s dot body)
  | passed {s : Scope} {dot : Value} {condition : Pipeline} {body : List Node} {rest : List Branch}
      {otherwise : Option (List Node)} {v : Value} :
      PipelineValue s dot condition (.ok v) → v.truthy = false →
      ComesTo g (.branches s dot (⟨condition, body⟩ :: rest) otherwise)
        (.branches s dot rest otherwise)
  | otherwise {s : Scope} {dot : Value} {otherwise : Option (List Node)} :
      ComesTo g (.branches s dot [] otherwise) (.nodes s dot (otherwise.getD []))
  | range {s : Scope} {dot : Value} {pos : Position} {p : Pipeline} {body : List Node}
      {otherwise : Option (List Node)} {v item : Value} {items : List Value} :
      PipelineValue s dot p (.ok v) → Iterates v (item :: items) →
      ComesTo g (.node s dot (.rebind .range pos p body otherwise))
        (.each s (item :: items) body)
  | rangeEmpty {s : Scope} {dot : Value} {pos : Position} {p : Pipeline} {body : List Node}
      {otherwise : Option (List Node)} {v : Value} :
      PipelineValue s dot p (.ok v) → Iterates v [] →
      ComesTo g (.node s dot (.rebind .range pos p body otherwise))
        (.nodes s dot (otherwise.getD []))
  | rebound {s : Scope} {dot : Value} {pos : Position} {p : Pipeline} {body : List Node}
      {otherwise : Option (List Node)} {v : Value} :
      PipelineValue s dot p (.ok v) → v.truthy = true →
      ComesTo g (.node s dot (.rebind .scoped pos p body otherwise)) (.nodes s v body)
  | reboundEmpty {s : Scope} {dot : Value} {pos : Position} {p : Pipeline} {body : List Node}
      {otherwise : Option (List Node)} {v : Value} :
      PipelineValue s dot p (.ok v) → v.truthy = false →
      ComesTo g (.node s dot (.rebind .scoped pos p body otherwise))
        (.nodes s dot (otherwise.getD []))
  | call {s : Scope} {dot : Value} {pos : Position} {name : String} {p : Pipeline} {t : Tree}
      {v : Value} :
      g.tree? name = some t → PipelineValue s dot p (.ok v) →
      ComesTo g (.node s dot (.call pos name (some p))) (.body t v)
  | callWithNothing {s : Scope} {dot : Value} {pos : Position} {name : String} {t : Tree} :
      g.tree? name = some t → ComesTo g (.node s dot (.call pos name none)) (.body t .null)

/-- A phrase is one phrase after another. -/
inductive Splits : Phrase → Phrase → Phrase → Prop where
  | nodes {s : Scope} {dot : Value} {n : Node} {rest : List Node} :
      Splits (.nodes s dot (n :: rest)) (.node s dot n) (.nodes s dot rest)
  | each {s : Scope} {item : Value} {items : List Value} {body : List Node} :
      Splits (.each s (item :: items) body) (.nodes s item body) (.each s items body)

/-! ## Outcomes -/

/-- The outcome of a phrase among the templates of a group, with the number of bodies that are
inside each other on the way to it. In a body the argument is both the current value and the top
one. -/
inductive Renders (g : Group) : Phrase → Except TemplateError String → Nat → Prop where
  | text {s : Scope} {dot : Value} {t : String} : Renders g (.node s dot (.text t)) (.ok t) 0
  | action {s : Scope} {dot : Value} {p : Pipeline} {v : Value} :
      PipelineValue s dot p (.ok v) → Renders g (.node s dot (.action p)) (.ok v.render) 0
  | nodesNil {s : Scope} {dot : Value} : Renders g (.nodes s dot []) (.ok "") 0
  | eachNil {s : Scope} {body : List Node} : Renders g (.each s [] body) (.ok "") 0
  | failure {φ : Phrase} {e : TemplateError} : Fails g φ e → Renders g φ (.error e) 0
  | comesTo {φ ψ : Phrase} {r : Except TemplateError String} {h : Nat} :
      ComesTo g φ ψ → Renders g ψ r h → Renders g φ r h
  | both {φ first rest : Phrase} {text : String} {r : Except TemplateError String} {h k : Nat} :
      Splits φ first rest → Renders g first (.ok text) h → Renders g rest r k →
      Renders g φ (r.map (text ++ ·)) (max h k)
  | first {φ first rest : Phrase} {e : TemplateError} {h : Nat} :
      Splits φ first rest → Renders g first (.error e) h → Renders g φ (.error e) h
  | body {t : Tree} {v : Value} {r : Except TemplateError String} {h : Nat} :
      Renders g (.nodes ⟨t.name, v, g.functions⟩ v t.root) r h → Renders g (.body t v) r (h + 1)

/-- The outcome of executing the template of a name for a value. -/
inductive Executes (g : Group) (name : String) (v : Value) :
    Except TemplateError String → Nat → Prop where
  | found {t : Tree} {r : Except TemplateError String} {h : Nat} :
      g.tree? name = some t → Renders g (.body t v) r h → Executes g name v r h
  | undefined :
      g.tree? name = none → Executes g name v (.error (.undefinedTemplate name g.name)) 0

/-! ## Entering a body -/

/-- Executing a phrase in order comes to enter a body with `n` other ones around it, and no such
body was entered before: what has been executed by then put out its text with at most `n` bodies
inside each other. The last argument is the name of the body's template. -/
inductive Enters (g : Group) : Nat → Phrase → String → Prop where
  | here {t : Tree} {v : Value} : Enters g 0 (.body t v) t.name
  | inside {n : Nat} {t : Tree} {v : Value} {u : String} :
      Enters g n (.nodes ⟨t.name, v, g.functions⟩ v t.root) u → Enters g (n + 1) (.body t v) u
  | comesTo {n : Nat} {φ ψ : Phrase} {u : String} :
      ComesTo g φ ψ → Enters g n ψ u → Enters g n φ u
  | first {n : Nat} {φ first rest : Phrase} {u : String} :
      Splits φ first rest → Enters g n first u → Enters g n φ u
  | later {n : Nat} {φ first rest : Phrase} {text : String} {h : Nat} {u : String} :
      Splits φ first rest → Renders g first (.ok text) h → h ≤ n → Enters g n rest u →
      Enters g n φ u

end Stencil.Natural
