/-
What the evaluator falls back on is never asked for.

The evaluator has a value for a pipeline without commands and for a command without operands. Here it
is copied with that value left open, and whatever is put in its place, even a failure, templates from
parsed sources put out the same. That the copy is the evaluator when its own value is put in is part
of the same induction: a fallback is harmless if it is that value or if nothing is missing.
-/
import Stencil.Proofs.FullTrees
import Stencil.Proofs.NaturalSemantics

set_option autoImplicit false

namespace Stencil

namespace Scope

/-! ## Evaluation with another fallback -/

mutual

/-- `operand` with another fallback. -/
def operandWith (fallback : Except TemplateError Value) (s : Scope) (dot : Value) :
    Operand → Except TemplateError Value
  | .dot => .ok dot
  | .field path => .ok (fieldOf dot path)
  | .variable path => .ok (fieldOf s.top path)
  | .function name => s.callFunction name []
  | .string t => .ok (.string t)
  | .int n => .ok (.int n)
  | .float x => .ok (.float x)
  | .bool b => .ok (.bool b)
  | .nil => .ok .null
  | .pipeline p => s.pipelineWith fallback dot p

/-- `operands` with another fallback. -/
def operandsWith (fallback : Except TemplateError Value) (s : Scope) (dot : Value) :
    List Operand → Except TemplateError (List Value)
  | [] => .ok []
  | o :: rest => do
    let v ← s.operandWith fallback dot o
    let vs ← s.operandsWith fallback dot rest
    .ok (v :: vs)

/-- `command` with another fallback, which is the value of a command without operands. -/
def commandWith (fallback : Except TemplateError Value) (s : Scope) (dot : Value)
    (piped : Option Value) : Command → Except TemplateError Value
  | ⟨_, []⟩ => fallback
  | ⟨_, .function name :: rest⟩ => do
    let args ← s.operandsWith fallback dot rest
    s.callFunction name (args ++ piped.toList)
  | ⟨pos, o :: rest⟩ =>
    if rest.isEmpty && piped.isNone then s.operandWith fallback dot o
    else .error (.misuse s.template (.argumentToValue pos))

/-- `commands` with another fallback, which is the value of no commands to which nothing is piped. -/
def commandsWith (fallback : Except TemplateError Value) (s : Scope) (dot : Value)
    (piped : Option Value) : List Command → Except TemplateError Value
  | [] =>
    match piped with
    | some v => .ok v
    | none => fallback
  | c :: rest => do
    let v ← s.commandWith fallback dot piped c
    s.commandsWith fallback dot (some v) rest

/-- `pipeline` with another fallback. -/
def pipelineWith (fallback : Except TemplateError Value) (s : Scope) (dot : Value) :
    Pipeline → Except TemplateError Value
  | ⟨_, cs⟩ => s.commandsWith fallback dot none cs

end

mutual

/-- `node` with another fallback. -/
def nodeWith (fallback : Except TemplateError Value) (s : Scope) (calls : Calls) (dot : Value) :
    Node → Except TemplateError String
  | .text t => .ok t
  | .action p => do
    let v ← s.pipelineWith fallback dot p
    .ok v.render
  | .conditional _ branches otherwise => do
    match ← s.branchesWith fallback calls dot branches with
    | some text => .ok text
    | none => s.alternativeWith fallback calls dot otherwise
  | .rebind .range _ p body otherwise => do
    let v ← s.pipelineWith fallback dot p
    match v.elements? with
    | none => .error (.misuse s.template (.notIterable v.typeName))
    | some [] => s.alternativeWith fallback calls dot otherwise
    | some items => textOfEach (fun item => s.nodesWith fallback calls item body) items
  | .rebind .scoped _ p body otherwise => do
    let v ← s.pipelineWith fallback dot p
    if v.truthy then s.nodesWith fallback calls v body
    else s.alternativeWith fallback calls dot otherwise
  | .call _ name p => do
    let run ← calls name
    match p with
    | some p => do
      let v ← s.pipelineWith fallback dot p
      run v
    | none => run .null

/-- `nodes` with another fallback. -/
def nodesWith (fallback : Except TemplateError Value) (s : Scope) (calls : Calls) (dot : Value) :
    List Node → Except TemplateError String
  | [] => .ok ""
  | n :: rest => do
    let text ← s.nodeWith fallback calls dot n
    let others ← s.nodesWith fallback calls dot rest
    .ok (text ++ others)

/-- `branches` with another fallback. -/
def branchesWith (fallback : Except TemplateError Value) (s : Scope) (calls : Calls) (dot : Value) :
    List Branch → Except TemplateError (Option String)
  | [] => .ok none
  | ⟨condition, body⟩ :: rest => do
    let v ← s.pipelineWith fallback dot condition
    if v.truthy then do
      let text ← s.nodesWith fallback calls dot body
      .ok (some text)
    else s.branchesWith fallback calls dot rest

/-- `alternative` with another fallback. -/
def alternativeWith (fallback : Except TemplateError Value) (s : Scope) (calls : Calls)
    (dot : Value) : Option (List Node) → Except TemplateError String
  | none => .ok ""
  | some body => s.nodesWith fallback calls dot body

end

/-! ## Where the fallback makes no difference -/

/-- Says that a fallback is the evaluator's own, or that it is not asked for. -/
def Harmless (fallback : Except TemplateError Value) (full : Bool) : Prop :=
  fallback = .ok .null ∨ full = true

namespace Harmless

variable {fallback : Except TemplateError Value} {b b' : Bool}

theorem left (h : Harmless fallback (b && b')) : Harmless fallback b :=
  h.imp_right fun hb => (Bool.and_eq_true_iff.1 hb).1

theorem right (h : Harmless fallback (b && b')) : Harmless fallback b' :=
  h.imp_right fun hb => (Bool.and_eq_true_iff.1 hb).2

theorem eq_null (h : Harmless fallback false) : fallback = .ok .null :=
  h.resolve_right Bool.false_ne_true

end Harmless

section

variable {fallback : Except TemplateError Value} {s : Scope} {dot : Value}

theorem commandWith_of_value {piped : Option Value} {pos : Position} {o : Operand}
    {rest : List Operand} (hno : ∀ name, o ≠ .function name) :
    s.commandWith fallback dot piped ⟨pos, o :: rest⟩
      = if (rest.isEmpty && piped.isNone) = true then s.operandWith fallback dot o
        else .error (.misuse s.template (.argumentToValue pos)) := by
  rw [commandWith]
  exact hno

mutual

theorem operandWith_eq : (o : Operand) → Harmless fallback o.isFull →
    s.operandWith fallback dot o = s.operand dot o
  | .pipeline p, h => by
    rw [Operand.isFull] at h
    rw [operandWith, operand, pipelineWith_eq p h]
  | .dot, _ => by rw [operandWith, operand]
  | .field _, _ => by rw [operandWith, operand]
  | .variable _, _ => by rw [operandWith, operand]
  | .function _, _ => by rw [operandWith, operand]
  | .string _, _ => by rw [operandWith, operand]
  | .int _, _ => by rw [operandWith, operand]
  | .float _, _ => by rw [operandWith, operand]
  | .bool _, _ => by rw [operandWith, operand]
  | .nil, _ => by rw [operandWith, operand]

theorem operandsWith_eq : (os : List Operand) → Harmless fallback (Operand.areFull os) →
    s.operandsWith fallback dot os = s.operands dot os
  | [], _ => by rw [operandsWith, operands]
  | o :: rest, h => by
    rw [Operand.areFull] at h
    rw [operandsWith, operands, operandWith_eq o h.left, operandsWith_eq rest h.right]

theorem commandWith_eq : (c : Command) → {piped : Option Value} → Harmless fallback c.isFull →
    s.commandWith fallback dot piped c = s.command dot piped c
  | ⟨_, []⟩, _, h => by
    rw [Command.isFull] at h
    rw [commandWith, command, h.left.eq_null]
  | ⟨pos, o :: rest⟩, piped, h => by
    rw [Command.isFull, Operand.areFull] at h
    -- What a command does is decided by its first operand.
    by_cases hfunction : ∃ name, o = .function name
    · obtain ⟨name, rfl⟩ := hfunction
      rw [commandWith, command, operandsWith_eq rest h.right.right]
    · have hno : ∀ name, o ≠ .function name := fun name heq => hfunction ⟨name, heq⟩
      rw [commandWith_of_value hno, Natural.command_of_value hno, operandWith_eq o h.right.left]

/-- With a value piped in, no commands need no fallback. -/
theorem commandsWith_eq : (cs : List Command) → {piped : Option Value} →
    Harmless fallback (Command.areFull cs) → Harmless fallback (!cs.isEmpty || piped.isSome) →
    s.commandsWith fallback dot piped cs = s.commands dot piped cs
  | [], some _, _, _ => by rw [commandsWith, commands]; rfl
  | [], none, _, h => by
    rw [commandsWith, commands, h.eq_null]
    rfl
  | c :: rest, piped, h, _ => by
    rw [Command.areFull] at h
    rw [commandsWith, commands, commandWith_eq c h.left]
    refine bind_congr fun v => commandsWith_eq rest h.right (Or.inr ?_)
    rw [Option.isSome_some, Bool.or_true]

/-- A pipeline in which nothing is missing has its value without the fallback. -/
theorem pipelineWith_eq : (p : Pipeline) → Harmless fallback p.isFull →
    s.pipelineWith fallback dot p = s.pipeline dot p
  | ⟨_, cs⟩, h => by
    rw [Pipeline.isFull] at h
    rw [pipelineWith, pipeline]
    exact commandsWith_eq cs h.right (h.left.imp_right fun hne => by rw [hne, Bool.true_or])

end

variable {calls : Calls}

mutual

theorem nodeWith_eq : (n : Node) → {dot : Value} → Harmless fallback n.isFull →
    s.nodeWith fallback calls dot n = s.node calls dot n
  | .text _, _, _ => by rw [nodeWith, node]
  | .action p, _, h => by
    rw [Node.isFull] at h
    rw [nodeWith, node, pipelineWith_eq p h]
  | .conditional _ bs otherwise, _, h => by
    rw [Node.isFull] at h
    rw [nodeWith, node, branchesWith_eq bs h.left.right]
    refine bind_congr fun found => ?_
    cases found with
    | some text => rfl
    | none => exact alternativeWith_eq otherwise h.right
  | .rebind .range _ p body otherwise, _, h => by
    rw [Node.isFull] at h
    rw [nodeWith, node, pipelineWith_eq p h.left.left]
    refine bind_congr fun v => ?_
    rcases v.elements? with _ | _ | ⟨item, items⟩
    · rfl
    · exact alternativeWith_eq otherwise h.right
    · have hbody : (fun item => s.nodesWith fallback calls item body)
          = fun item => s.nodes calls item body := funext fun _ => nodesWith_eq body h.left.right
      exact congrArg (textOfEach · (item :: items)) hbody
  | .rebind .scoped _ p body otherwise, _, h => by
    rw [Node.isFull] at h
    rw [nodeWith, node, pipelineWith_eq p h.left.left, alternativeWith_eq otherwise h.right]
    refine bind_congr fun v => ?_
    rw [nodesWith_eq body h.left.right]
  | .call _ name none, _, _ => by rw [nodeWith, node]
  | .call _ name (some p), dot, h => by
    rw [Node.isFull] at h
    have hp : Harmless fallback p.isFull := h
    rw [nodeWith, node]
    refine bind_congr fun run => ?_
    show (s.pipelineWith fallback dot p >>= run) = _
    rw [pipelineWith_eq p hp]

/-- Nodes in which nothing is missing put out the same with any fallback. -/
theorem nodesWith_eq : (ns : List Node) → {dot : Value} → Harmless fallback (Node.areFull ns) →
    s.nodesWith fallback calls dot ns = s.nodes calls dot ns
  | [], _, _ => by rw [nodesWith, nodes]
  | n :: rest, _, h => by
    rw [Node.areFull] at h
    rw [nodesWith, nodes, nodeWith_eq n h.left, nodesWith_eq rest h.right]

theorem branchesWith_eq : (bs : List Branch) → {dot : Value} →
    Harmless fallback (Branch.areFull bs) →
    s.branchesWith fallback calls dot bs = s.branches calls dot bs
  | [], _, _ => by rw [branchesWith, branches]
  | ⟨condition, body⟩ :: rest, _, h => by
    rw [Branch.areFull] at h
    rw [branchesWith, branches, pipelineWith_eq condition h.left.left,
      nodesWith_eq body h.left.right, branchesWith_eq rest h.right]

theorem alternativeWith_eq : (otherwise : Option (List Node)) → {dot : Value} →
    Harmless fallback (Node.isFullAlternative otherwise) →
    s.alternativeWith fallback calls dot otherwise = s.alternative calls dot otherwise
  | none, _, _ => by rw [alternativeWith, alternative]
  | some body, _, h => by
    rw [Node.isFullAlternative] at h
    rw [alternativeWith, alternative, nodesWith_eq body h]

end

end

end Scope

/-! ## Groups -/

namespace Group

/-- `run` with another fallback. -/
def runWith (fallback : Except TemplateError Value) (g : Group) :
    (depth : Nat) → Tree → Value → Except TemplateError String
  | 0, t, _ => .error (.tooDeep t.name)
  | depth + 1, t, v =>
    Scope.nodesWith fallback ⟨t.name, v, g.functions⟩ (g.callsBy (g.runWith fallback depth)) v t.root

/-- `executeTemplate` with another fallback. -/
def executeTemplateWith (fallback : Except TemplateError Value) (g : Group) (name : String)
    (v : Value) : Except TemplateError String := do
  let run ← g.callsBy (g.runWith fallback depthLimit) name
  run v

/-- Says that nothing is missing in the templates of a group. -/
def Full (g : Group) : Prop := ∀ name t, g.tree? name = some t → t.isFull = true

variable {g : Group}

theorem full_named (name : String) (functions : FuncTable) : Full { named name with functions } :=
  fun _ t ht => absurd ht.symm (Option.some_ne_none t)

theorem Full.add (h : g.Full) {t : Tree} (ht : t.isFull = true) : (g.add t).Full := by
  intro name u hu
  rw [tree?_add] at hu
  split at hu
  · rw [← Option.some.inj hu]
    exact ht
  · exact h name u hu

theorem Full.foldl_add (h : g.Full) {ts : List Tree} (hts : ∀ t ∈ ts, t.isFull = true) :
    (ts.foldl Group.add g).Full := by
  induction ts generalizing g with
  | nil => exact h
  | cons t rest ih =>
    rw [List.foldl_cons]
    exact ih (h.add (hts t List.mem_cons_self)) fun u hu => hts u (List.mem_cons_of_mem t hu)

/-- Parsing a source leaves nothing missing. -/
theorem Full.parse (h : g.Full) {name source : String} {g' : Group}
    (hparse : g.parse name source = .ok g') : g'.Full := by
  unfold Group.parse at hparse
  split at hparse
  · rename_i parsed hparsed
    rw [← Except.ok.inj hparse]
    exact h.foldl_add (ParsedSource.isFull_of_parse hparsed)
  · exact absurd hparse (by simp)

/-- Calls within a group put out the same with any fallback, however many templates may be inside each
other. -/
theorem callsBy_runWith {fallback : Except TemplateError Value} (h : fallback = .ok .null ∨ g.Full)
    (depth : Nat) : g.callsBy (g.runWith fallback depth) = g.callsBy (g.run depth) := by
  induction depth with
  | zero => rfl
  | succ depth ih =>
    funext name
    unfold callsBy
    cases ht : g.tree? name with
    | none => rfl
    | some t =>
      have hrun : g.runWith fallback (depth + 1) t = g.run (depth + 1) t := by
        funext v
        rw [runWith, run, ih]
        exact Scope.nodesWith_eq t.root (h.imp_right fun hfull => hfull name t ht)
      simp only [hrun]

theorem executeTemplateWith_eq {fallback : Except TemplateError Value}
    (h : fallback = .ok .null ∨ g.Full) (name : String) (v : Value) :
    g.executeTemplateWith fallback name v = g.executeTemplate name v := by
  rw [executeTemplateWith, executeTemplate, callsBy_runWith h]

end Group

namespace Parser

/-- **Lexer and parser stay in step, and parsed trees are well formed.** The tokens of a source are texts
and whole actions. A run of the parser over them comes back outside actions; where it fails, it does so
inside an action and not for want of a token, and otherwise the source is refused only for a construct
that is open at its end. Nothing is missing in the trees of a source that is parsed, and with all
templates of a group from such sources, what the evaluator falls back on makes no difference. -/
theorem in_step_of_tokensOf {source : String} {ts : List PlacedToken} (h : tokensOf source = .ok ts)
    (functions : FuncTable) (name : String) :
    Bracketed ts ∧
    InAction (·.mode = .outside) (run functions.defines State.initial ts) ∧
    (∀ e, parse functions.defines name source = .error e → e.cause.isOfAction = true ∨
      ∃ s o outer, run functions.defines State.initial ts = .ok s ∧ s.mode = .outside
        ∧ s.opened = o :: outer
        ∧ e = ⟨.unexpectedEof o.frame.construct, o.frame.eofPosition (lastPosition ts)⟩
        ∧ o.frame.construct ∈ [.ifClause, .rebind .range, .rebind .scoped, .define, .block]) ∧
    (∀ parsed, parse functions.defines name source = .ok parsed →
      ∀ t ∈ parsed.trees, t.isFull = true) ∧
    ∀ g g' : Group, g.Full → g.parse name source = .ok g' →
      g'.Full ∧ ∀ fallback entry v,
        g'.executeTemplateWith fallback entry v = g'.executeTemplate entry v := by
  refine ⟨bracketed_of_tokensOf h, inAction_run (bracketed_of_tokensOf h) rfl, fun e he => ?_,
    fun _ => ParsedSource.isFull_of_parse, fun g g' hg hparse => ?_⟩
  · rcases error_of_parse h he with hinside | ⟨s, o, outer, hs, hmode, hopened, heq⟩
    · exact Or.inl hinside
    · exact Or.inr ⟨s, o, outer, hs, hmode, hopened, heq, construct_mem o.frame⟩
  · have hfull := hg.parse hparse
    exact ⟨hfull, fun _ entry v => Group.executeTemplateWith_eq (Or.inr hfull) entry v⟩

/-- A source that leaves a construct open, and one with a pipeline in another and an empty definition. -/
theorem in_step_of_tokensOf_open :
    (∃ ts e, tokensOf "a\x7b\x7bif .x\x7d\x7db" = .ok ts
      ∧ parse (FuncTable.defines Table.empty) "page" "a\x7b\x7bif .x\x7d\x7db" = .error e
      ∧ e.pos = ⟨1, 2⟩ ∧ Bracketed ts ∧ ∃ s o outer,
        run (FuncTable.defines Table.empty) State.initial ts = .ok s ∧ s.opened = o :: outer
          ∧ e = ⟨.unexpectedEof o.frame.construct, o.frame.eofPosition (lastPosition ts)⟩) ∧
    ∃ ts g', tokensOf "\x7b\x7bdefine \"t\"\x7d\x7d\x7b\x7bend\x7d\x7d\x7b\x7b(.x) | not\x7d\x7d" = .ok ts
      ∧ (Group.named "g").parse "page"
        "\x7b\x7bdefine \"t\"\x7d\x7d\x7b\x7bend\x7d\x7d\x7b\x7b(.x) | not\x7d\x7d" = .ok g'
      ∧ Group.Full (Group.named "g") ∧ g'.Full
      ∧ ∀ fallback, g'.executeTemplateWith fallback "page" .null = g'.executeTemplate "page" .null := by
  refine ⟨?_, ?_⟩
  · obtain ⟨ts, hts⟩ : ∃ ts, tokensOf "a\x7b\x7bif .x\x7d\x7db" = .ok ts :=
      Runs.exists_eq_ok (by decide +kernel)
    have hplace : (Runs.error? (parse (FuncTable.defines Table.empty) "page"
        "a\x7b\x7bif .x\x7d\x7db")).map (fun e => (e.pos, e.cause.isOfAction))
          = some (⟨1, 2⟩, false) := by
      decide +kernel
    obtain ⟨e, he, hkind⟩ := Option.map_eq_some_iff.1 hplace
    obtain ⟨hpos, hcause⟩ := Prod.mk.inj hkind
    rw [Runs.error?_eq_some] at he
    obtain ⟨hbracketed, -, herror, -⟩ := in_step_of_tokensOf hts Table.empty "page"
    refine ⟨ts, e, hts, he, hpos, hbracketed, ?_⟩
    rcases herror e he with hinside | ⟨s, o, outer, hs, -, hopened, heq, -⟩
    · rw [hcause] at hinside
      exact absurd hinside Bool.false_ne_true
    · exact ⟨s, o, outer, hs, hopened, heq⟩
  · obtain ⟨ts, hts⟩ : ∃ ts, tokensOf
        "\x7b\x7bdefine \"t\"\x7d\x7d\x7b\x7bend\x7d\x7d\x7b\x7b(.x) | not\x7d\x7d" = .ok ts :=
      Runs.exists_eq_ok (by decide +kernel)
    obtain ⟨g', hg'⟩ : ∃ g', (Group.named "g").parse "page"
        "\x7b\x7bdefine \"t\"\x7d\x7d\x7b\x7bend\x7d\x7d\x7b\x7b(.x) | not\x7d\x7d" = .ok g' :=
      Runs.exists_eq_ok (by decide +kernel)
    have hempty : Group.Full (Group.named "g") := Group.full_named "g" Table.empty
    obtain ⟨-, -, -, -, hgroups⟩ := in_step_of_tokensOf hts Table.empty "page"
    obtain ⟨hfull, heq⟩ := hgroups _ g' hempty hg'
    exact ⟨ts, g', hts, hg', hempty, hfull, fun fallback => heq fallback "page" .null⟩

end Parser

end Stencil
