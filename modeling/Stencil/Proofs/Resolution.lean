/-
Functions that a template mentions are there.

The parser looks a function up before it puts its name into a tree, and execution looks it up again.
The first look-up makes the second one succeed, wherever in the tree the name ends up: this is proved
in two halves that meet at the names that a tree mentions. Along the derivations of the grammar,
nothing gets into a tree, or into a definition found on the way, that is not defined. Along the
recursion of the execution, a tree that mentions only what is defined never fails for want of a
function, provided the templates that it calls do not.
-/
import Stencil.Proofs.GrammarOfRuns
import Stencil.Proofs.LastWord
import Stencil.Proofs.Mentions

set_option autoImplicit false

namespace Stencil

/-! ## Names that are defined -/

/-- Says that every function among mentions is defined. -/
def Resolved (defined : String → Bool) (ms : List Mention) : Prop :=
  ∀ name, .function name ∈ ms → defined name = true

namespace Resolved

variable {defined : String → Bool} {ms ms' : List Mention} {name : String}

theorem nil : Resolved defined [] := fun _ h => absurd h List.not_mem_nil

theorem append_iff :
    Resolved defined (ms ++ ms') ↔ Resolved defined ms ∧ Resolved defined ms' := by
  constructor
  · exact fun h => ⟨fun name hname => h name (List.mem_append_left _ hname),
      fun name hname => h name (List.mem_append_right _ hname)⟩
  · rintro ⟨h, h'⟩ name hname
    rcases List.mem_append.1 hname with hname | hname
    · exact h name hname
    · exact h' name hname

theorem append (h : Resolved defined ms) (h' : Resolved defined ms') :
    Resolved defined (ms ++ ms') := append_iff.2 ⟨h, h'⟩

theorem left (h : Resolved defined (ms ++ ms')) : Resolved defined ms := (append_iff.1 h).1

theorem right (h : Resolved defined (ms ++ ms')) : Resolved defined ms' := (append_iff.1 h).2

/-- Calls need no function. -/
theorem template_cons_iff :
    Resolved defined (.template name :: ms) ↔ Resolved defined ms := by
  refine forall_congr' fun f => ?_
  simp

theorem function_cons_iff :
    Resolved defined (.function name :: ms) ↔ defined name = true ∧ Resolved defined ms := by
  constructor
  · exact fun h => ⟨h name List.mem_cons_self, fun f hf => h f (List.mem_cons_of_mem _ hf)⟩
  · rintro ⟨hname, h⟩ f hf
    rcases List.mem_cons.1 hf with heq | hf
    · rw [Mention.function.inj heq]
      exact hname
    · exact h f hf

end Resolved

/-! ## Lists that grow at their end

The grammar adds operands, commands, nodes and branches behind those that are there. -/

theorem Operand.mentionsOfAll_concat (os : List Operand) (o : Operand) :
    mentionsOfAll (os ++ [o]) = mentionsOfAll os ++ o.mentions := by
  induction os with
  | nil => simp [mentionsOfAll]
  | cons first rest ih => rw [List.cons_append, mentionsOfAll, ih, mentionsOfAll, List.append_assoc]

theorem Command.mentionsOfAll_concat (cs : List Command) (c : Command) :
    mentionsOfAll (cs ++ [c]) = mentionsOfAll cs ++ c.mentions := by
  induction cs with
  | nil => simp [mentionsOfAll]
  | cons first rest ih => rw [List.cons_append, mentionsOfAll, ih, mentionsOfAll, List.append_assoc]

theorem Node.mentionsOfAll_concat (ns : List Node) (n : Node) :
    mentionsOfAll (ns ++ [n]) = mentionsOfAll ns ++ n.mentions := by
  induction ns with
  | nil => simp [mentionsOfAll]
  | cons first rest ih => rw [List.cons_append, mentionsOfAll, ih, mentionsOfAll, List.append_assoc]

theorem Branch.mentionsOfAll_concat (bs : List Branch) (p : Pipeline) (body : List Node) :
    mentionsOfAll (bs ++ [⟨p, body⟩])
      = mentionsOfAll bs ++ (p.mentions ++ Node.mentionsOfAll body) := by
  induction bs with
  | nil => simp [mentionsOfAll]
  | cons first rest ih =>
    obtain ⟨condition, before⟩ := first
    rw [List.cons_append, mentionsOfAll, ih, mentionsOfAll, ← List.append_assoc]

/-! ## What the grammar derives -/

namespace Grammar

variable {defined : String → Bool}

/-- Tokens that are operands by themselves mention nothing. -/
theorem mentions_of_isValue {t : Token} {o : Operand} (h : IsValue t o) : o.mentions = [] := by
  cases h <;> rw [Operand.mentions]

mutual

theorem resolved_operand : ∀ {ts : List PlacedToken} {o : Operand}, IsOperand defined ts o →
    Resolved defined o.mentions
  | _, _, .value h => by
    rw [mentions_of_isValue h]
    exact .nil
  | _, _, .function h => by
    rw [Operand.mentions]
    exact Resolved.function_cons_iff.2 ⟨h, .nil⟩
  | _, _, .parentheses h => by
    rw [Operand.mentions]
    exact resolved_pipeline h

theorem resolved_operands : ∀ {ts : List PlacedToken} {os : List Operand},
    IsOperands defined ts os → Resolved defined (Operand.mentionsOfAll os)
  | _, _, .nil => by
    rw [Operand.mentionsOfAll]
    exact .nil
  | _, _, .snoc hos ho => by
    rw [Operand.mentionsOfAll_concat]
    exact (resolved_operands hos).append (resolved_operand ho)

theorem resolved_command : ∀ {ts : List PlacedToken} {c : Command}, IsCommand defined ts c →
    Resolved defined c.mentions
  | _, _, .operands h => by
    rw [Command.mentions]
    exact resolved_operands h

theorem resolved_commands : ∀ {ts : List PlacedToken} {cs : List Command},
    IsCommands defined ts cs → Resolved defined (Command.mentionsOfAll cs)
  | _, _, .one h => by
    rw [Command.mentionsOfAll, Command.mentionsOfAll, List.append_nil]
    exact resolved_command h
  | _, _, .piped hcs hc => by
    rw [Command.mentionsOfAll_concat]
    exact (resolved_commands hcs).append (resolved_command hc)

/-- Every function in a pipeline is defined, at any nesting of parentheses. -/
theorem resolved_pipeline : ∀ {ts : List PlacedToken} {p : Pipeline}, IsPipeline defined ts p →
    Resolved defined p.mentions
  | _, _, .commands h => by
    rw [Pipeline.mentions]
    exact resolved_commands h

end

theorem resolved_argument {ts : List PlacedToken} {p : Option Pipeline}
    (h : IsArgument defined ts p) : Resolved defined ((p.map Pipeline.mentions).getD []) := by
  cases h with
  | missing => exact .nil
  | given hp => exact resolved_pipeline hp

theorem resolved_call {k : Keyword} {start : Position} {name : String} {ts : List PlacedToken}
    {p : Option Pipeline} (h : IsNamedHeader defined k start name ts p) :
    Resolved defined (Node.call start name p).mentions := by
  obtain ⟨hp⟩ := h
  rw [Node.mentions]
  exact Resolved.template_cons_iff.2 (resolved_argument hp)

/-- Says that nodes and the definitions found in them mention only what is defined. -/
structure AllResolved (defined : String → Bool) (ms : List Mention) (ds : List Tree) : Prop where
  here : Resolved defined ms
  definitions : ∀ d ∈ ds, Resolved defined d.mentions

namespace AllResolved

variable {ms ms' : List Mention} {ds ds' : List Tree}

theorem append (h : AllResolved defined ms ds) (h' : AllResolved defined ms' ds') :
    AllResolved defined (ms ++ ms') (ds ++ ds') := by
  refine ⟨h.here.append h'.here, fun d hd => ?_⟩
  rcases List.mem_append.1 hd with hd | hd
  · exact h.definitions d hd
  · exact h'.definitions d hd

/-- What stands in a pipeline joins what stands in the nodes behind it. -/
theorem behind (h : Resolved defined ms) (h' : AllResolved defined ms' ds) :
    AllResolved defined (ms ++ ms') ds := ⟨h.append h'.here, h'.definitions⟩

/-- A body becomes a definition. -/
theorem define {body : List Node} (h : AllResolved defined (Node.mentionsOfAll body) ds)
    (name : String) : ∀ d ∈ ds ++ [⟨name, body⟩], Resolved defined d.mentions := by
  intro d hd
  rcases List.mem_append.1 hd with hd | hd
  · exact h.definitions d hd
  · rw [List.mem_singleton.1 hd]
    exact h.here

end AllResolved

mutual

theorem resolved_node : ∀ {ts : List PlacedToken} {n : Node} {ds : List Tree},
    IsNode defined ts n ds → AllResolved defined n.mentions ds
  | _, _, _, .text => by
    rw [Node.mentions]
    exact ⟨.nil, fun d hd => absurd hd List.not_mem_nil⟩
  | _, _, _, .output h => by
    rw [Node.mentions]
    exact ⟨resolved_pipeline h, fun d hd => absurd hd List.not_mem_nil⟩
  | _, _, _, .conditional hbs hotherwise _ => by
    rw [Node.mentions]
    exact (resolved_branches hbs).append (resolved_alternative hotherwise)
  | _, _, _, .rebind (.mk hp) hbody hotherwise _ => by
    rw [Node.mentions]
    exact (AllResolved.behind (resolved_pipeline hp) (resolved_nodes hbody)).append
      (resolved_alternative hotherwise)
  | _, _, _, .call hhead => ⟨resolved_call hhead, fun d hd => absurd hd List.not_mem_nil⟩
  | _, _, _, .block hhead hbody _ => ⟨resolved_call hhead, (resolved_nodes hbody).define _⟩

/-- Every function in a list of nodes is defined, and so is every one in a definition among them. -/
theorem resolved_nodes : ∀ {outermost : Bool} {ts : List PlacedToken} {ns : List Node}
    {ds : List Tree}, IsNodes defined outermost ts ns ds →
      AllResolved defined (Node.mentionsOfAll ns) ds
  | _, _, _, _, .nil => by
    rw [Node.mentionsOfAll]
    exact ⟨.nil, fun d hd => absurd hd List.not_mem_nil⟩
  | _, _, _, _, .node hns hn => by
    rw [Node.mentionsOfAll_concat]
    exact (resolved_nodes hns).append (resolved_node hn)
  | _, _, _, _, .define hns _ hbody _ => by
    have hbefore := resolved_nodes hns
    have hinside := (resolved_nodes hbody).define
    refine ⟨hbefore.here, fun d hd => ?_⟩
    rcases List.mem_append.1 hd with hd | hd
    · exact hbefore.definitions d hd
    · exact hinside _ d hd

theorem resolved_branches : ∀ {start : Position} {ts : List PlacedToken} {bs : List Branch}
    {ds : List Tree}, IsBranches defined start ts bs ds →
      AllResolved defined (Branch.mentionsOfAll bs) ds
  | _, _, _, _, .first (.mk hp) hbody => by
    rw [Branch.mentionsOfAll, Branch.mentionsOfAll, List.append_nil]
    exact .behind (resolved_pipeline hp) (resolved_nodes hbody)
  | _, _, _, _, .further hbs (.mk hp) hbody => by
    rw [Branch.mentionsOfAll_concat]
    exact (resolved_branches hbs).append
      (.behind (resolved_pipeline hp) (resolved_nodes hbody))

theorem resolved_alternative : ∀ {ts : List PlacedToken} {otherwise : Option (List Node)}
    {ds : List Tree}, IsAlternative defined ts otherwise ds →
      AllResolved defined (Node.mentionsOfAlternative otherwise) ds
  | _, _, _, .missing => by
    rw [Node.mentionsOfAlternative]
    exact ⟨.nil, fun d hd => absurd hd List.not_mem_nil⟩
  | _, _, _, .given _ hbody => by
    rw [Node.mentionsOfAlternative]
    exact resolved_nodes hbody

end

end Grammar

/-- Whatever is parsed mentions only functions that are defined. -/
theorem ParsedSource.resolved_of_parse {functions : FuncTable} {name text : String}
    {parsed : ParsedSource} (h : Parser.parse functions.defines name text = .ok parsed) :
    ∀ t ∈ parsed.trees, Resolved functions.defines t.mentions := by
  obtain ⟨tokens, _, htokens⟩ := Parser.parse_eq_ok_iff_tokens.1 h
  obtain ⟨nodes, ds, hnodes, _, rfl⟩ := Grammar.isTemplate_of_parseTokens htokens
  have hall := Grammar.resolved_nodes hnodes
  intro t ht
  rcases List.mem_cons.1 ht with rfl | ht
  · exact hall.here
  · -- Collecting the definitions adds none.
    obtain ⟨found, _, hchosen⟩ := List.mem_filterMap.1 ht
    exact hall.definitions t (Grammar.mem_of_chosen? hchosen)

/-! ## Execution -/

/-- An outcome other than the failure to find a function. -/
def FindsFunctions {α : Type} (r : Except TemplateError α) : Prop :=
  ∀ template name, r ≠ .error (.misuse template (.undefinedFunction name))

namespace FindsFunctions

variable {α β : Type} {s : Scope} {dot : Value} {calls : Calls}

theorem ok {a : α} : FindsFunctions (.ok a : Except TemplateError α) := fun _ _ h => by cases h

/-- Of a failure, it depends on the failure only and not on what was to be computed. -/
theorem error_iff {e : TemplateError} :
    FindsFunctions (.error e : Except TemplateError α)
      ↔ ∀ template name, e ≠ .misuse template (.undefinedFunction name) :=
  ⟨fun h template name he => h template name (congrArg Except.error he),
    fun h template name he => h template name (Except.error.inj he)⟩

theorem bind {x : Except TemplateError α} {f : α → Except TemplateError β} (hx : FindsFunctions x)
    (hf : ∀ a, x = .ok a → FindsFunctions (f a)) : FindsFunctions (x >>= f) := by
  cases x with
  | error e => exact error_iff.2 (error_iff.1 hx)
  | ok a => exact hf a rfl

/-- A function that is there may fail, but it is found. -/
theorem callFunction {name : String} {args : List Value} (h : s.functions.defines name = true) :
    FindsFunctions (s.callFunction name args) := by
  obtain ⟨f, hf⟩ := Option.isSome_iff_exists.1 h
  intro template other hfails
  rw [Scope.callFunction, hf] at hfails
  change (f args).mapError _ = _ at hfails
  cases hargs : f args with
  | error e => rw [hargs] at hfails; cases hfails
  | ok v => rw [hargs] at hfails; cases hfails

mutual

theorem operand : (o : Operand) → Resolved s.functions.defines o.mentions →
    FindsFunctions (s.operand dot o)
  | .function _, h => by
    rw [Operand.mentions] at h
    rw [Scope.operand]
    exact callFunction (Resolved.function_cons_iff.1 h).1
  | .pipeline ⟨_, cs⟩, h => by
    rw [Operand.mentions, Pipeline.mentions] at h
    rw [Scope.operand, Scope.pipeline]
    exact commands cs h
  | .dot, _ => by rw [Scope.operand]; exact ok
  | .field _, _ => by rw [Scope.operand]; exact ok
  | .variable _, _ => by rw [Scope.operand]; exact ok
  | .string _, _ => by rw [Scope.operand]; exact ok
  | .int _, _ => by rw [Scope.operand]; exact ok
  | .float _, _ => by rw [Scope.operand]; exact ok
  | .bool _, _ => by rw [Scope.operand]; exact ok
  | .nil, _ => by rw [Scope.operand]; exact ok

theorem operands : (os : List Operand) →
    Resolved s.functions.defines (Operand.mentionsOfAll os) → FindsFunctions (s.operands dot os)
  | [], _ => by rw [Scope.operands]; exact ok
  | o :: rest, h => by
    rw [Operand.mentionsOfAll] at h
    rw [Scope.operands]
    exact bind (operand o h.left) fun v _ => bind (operands rest h.right) fun vs _ => ok

theorem command : (c : Command) → {piped : Option Value} →
    Resolved s.functions.defines c.mentions → FindsFunctions (s.command dot piped c)
  | ⟨_, []⟩, _, _ => by rw [Scope.command]; exact ok
  | ⟨pos, o :: rest⟩, piped, h => by
    rw [Command.mentions, Operand.mentionsOfAll] at h
    by_cases hfunction : ∃ name, o = .function name
    · obtain ⟨name, rfl⟩ := hfunction
      have hname := h.left
      rw [Operand.mentions] at hname
      rw [Scope.command]
      exact bind (operands rest h.right) fun args _ =>
        callFunction (Resolved.function_cons_iff.1 hname).1
    · rw [Natural.command_of_value fun name heq => hfunction ⟨name, heq⟩]
      split
      · exact operand o h.left
      · exact error_iff.2 fun _ _ he => by cases he

theorem commands : (cs : List Command) → {piped : Option Value} →
    Resolved s.functions.defines (Command.mentionsOfAll cs) →
      FindsFunctions (s.commands dot piped cs)
  | [], _, _ => by rw [Scope.commands]; exact ok
  | c :: rest, _, h => by
    rw [Command.mentionsOfAll] at h
    rw [Scope.commands]
    exact bind (command c h.left) fun v _ => commands rest h.right

end

theorem pipeline : (p : Pipeline) → Resolved s.functions.defines p.mentions →
    FindsFunctions (s.pipeline dot p)
  | ⟨_, cs⟩, h => by
    rw [Pipeline.mentions] at h
    rw [Scope.pipeline]
    exact commands cs h

theorem textOfEach {f : Value → Except TemplateError String} (hf : ∀ v, FindsFunctions (f v))
    (items : List Value) : FindsFunctions (Stencil.textOfEach f items) := by
  induction items with
  | nil => exact ok
  | cons v rest ih => exact bind (hf v) fun text _ => bind ih fun others _ => ok

/-- Says that calls of any name find all functions, before and after an argument is looked at. -/
def OfCalls (calls : Calls) : Prop :=
  ∀ name, FindsFunctions (calls name) ∧ ∀ run, calls name = .ok run → ∀ v, FindsFunctions (run v)

mutual

/-- A node that mentions only what is defined finds all functions, if the templates it calls do. -/
theorem node (hcalls : OfCalls calls) : (n : Node) → {dot : Value} →
    Resolved s.functions.defines n.mentions → FindsFunctions (s.node calls dot n)
  | .text _, _, _ => by rw [Scope.node]; exact ok
  | .action p, _, h => by
    rw [Node.mentions] at h
    rw [Scope.node]
    exact bind (pipeline p h) fun v _ => ok
  | .conditional pos bs otherwise, dot, h => by
    rw [Node.mentions] at h
    rw [Scope.node]
    refine bind (branches hcalls bs h.left) fun taken _ => ?_
    cases taken with
    | some text => exact ok
    | none => exact alternative hcalls otherwise h.right
  | .rebind .range pos p body otherwise, dot, h => by
    rw [Node.mentions] at h
    rw [Scope.node]
    refine bind (pipeline p h.left.left) fun v _ => ?_
    split
    · exact error_iff.2 fun _ _ he => by cases he
    · exact alternative hcalls otherwise h.right
    · exact textOfEach (fun item => nodes hcalls body h.left.right) _
  | .rebind .scoped pos p body otherwise, dot, h => by
    rw [Node.mentions] at h
    rw [Scope.node]
    refine bind (pipeline p h.left.left) fun v _ => ?_
    split
    · exact nodes hcalls body h.left.right
    · exact alternative hcalls otherwise h.right
  | .call pos name none, dot, _ => by
    rw [Scope.node]
    exact bind (hcalls name).1 fun run hrun => (hcalls name).2 run hrun .null
  | .call pos name (some p), dot, h => by
    rw [Node.mentions] at h
    have hp : Resolved s.functions.defines p.mentions := Resolved.template_cons_iff.1 h
    rw [Scope.node]
    exact bind (hcalls name).1 fun run hrun =>
      bind (pipeline p hp) fun v _ => (hcalls name).2 run hrun v

theorem nodes (hcalls : OfCalls calls) : (ns : List Node) → {dot : Value} →
    Resolved s.functions.defines (Node.mentionsOfAll ns) → FindsFunctions (s.nodes calls dot ns)
  | [], _, _ => by rw [Scope.nodes]; exact ok
  | n :: rest, _, h => by
    rw [Node.mentionsOfAll] at h
    rw [Scope.nodes]
    exact bind (node hcalls n h.left) fun text _ => bind (nodes hcalls rest h.right) fun _ _ => ok

theorem branches (hcalls : OfCalls calls) : (bs : List Branch) → {dot : Value} →
    Resolved s.functions.defines (Branch.mentionsOfAll bs) →
      FindsFunctions (s.branches calls dot bs)
  | [], _, _ => by rw [Scope.branches]; exact ok
  | ⟨condition, body⟩ :: rest, _, h => by
    rw [Branch.mentionsOfAll] at h
    rw [Scope.branches]
    refine bind (pipeline condition h.left.left) fun v _ => ?_
    split
    · exact bind (nodes hcalls body h.left.right) fun text _ => ok
    · exact branches hcalls rest h.right

theorem alternative (hcalls : OfCalls calls) : (otherwise : Option (List Node)) → {dot : Value} →
    Resolved s.functions.defines (Node.mentionsOfAlternative otherwise) →
      FindsFunctions (s.alternative calls dot otherwise)
  | none, _, _ => by rw [Scope.alternative]; exact ok
  | some body, _, h => by
    rw [Node.mentionsOfAlternative] at h
    rw [Scope.alternative]
    exact nodes hcalls body h

end

end FindsFunctions

/-! ## Groups -/

namespace Group

/-- Says that every template of a group mentions only functions that the group has. -/
def Checked (g : Group) : Prop :=
  ∀ name t, g.tree? name = some t → Resolved g.functions.defines t.mentions

variable {g : Group}

theorem checked_named (name : String) (functions : FuncTable) :
    Checked { named name with functions } :=
  fun _ t ht => absurd ht.symm (Option.some_ne_none t)

/-- One more template does not spoil a group if it mentions only functions that the group has. -/
theorem Checked.add (h : g.Checked) {t : Tree} (ht : Resolved g.functions.defines t.mentions) :
    (g.add t).Checked := by
  intro name u hu
  rw [functions_add]
  rw [tree?_add] at hu
  split at hu
  · rw [← Option.some.inj hu]
    exact ht
  · exact h name u hu

theorem Checked.foldl_add (h : g.Checked) {ts : List Tree}
    (hts : ∀ t ∈ ts, Resolved g.functions.defines t.mentions) : (ts.foldl Group.add g).Checked := by
  induction ts generalizing g with
  | nil => exact h
  | cons t rest ih =>
    rw [List.foldl_cons]
    refine ih (h.add (hts t List.mem_cons_self)) fun u hu => ?_
    rw [functions_add]
    exact hts u (List.mem_cons_of_mem t hu)

/-- Calls find all functions if the templates of the group do. -/
theorem ofCalls_callsBy {run : Tree → Value → Except TemplateError String}
    (hrun : ∀ name t, g.tree? name = some t → ∀ v, FindsFunctions (run t v)) :
    FindsFunctions.OfCalls (g.callsBy run) := by
  intro name
  unfold callsBy
  cases ht : g.tree? name with
  | none =>
    refine ⟨FindsFunctions.error_iff.2 fun _ _ he => ?_, fun _ hnone => ?_⟩
    · cases he
    · cases hnone
  | some t =>
    refine ⟨.ok, fun found hfound v => ?_⟩
    rw [← Except.ok.inj hfound]
    exact hrun name t ht v

/-- Calls within a checked group find all functions, however many templates may be inside each
other. -/
theorem Checked.ofCalls (h : g.Checked) (depth : Nat) :
    FindsFunctions.OfCalls (g.callsBy (g.run depth)) := by
  induction depth with
  | zero =>
    refine ofCalls_callsBy fun name t _ v => FindsFunctions.error_iff.2 fun _ _ he => ?_
    cases he
  | succ depth ih =>
    exact ofCalls_callsBy fun name t ht v => FindsFunctions.nodes ih t.root (h name t ht)

/-- No execution of a template of a checked group fails for want of a function. -/
theorem Checked.executeTemplate (h : g.Checked) (name : String) (v : Value) :
    FindsFunctions (g.executeTemplate name v) :=
  (h.ofCalls depthLimit name).1.bind fun run hrun => (h.ofCalls depthLimit name).2 run hrun v

end Group

end Stencil
