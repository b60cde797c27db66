/-
Whatever the grammar derives is parsed.

The tokens of every phrase of the grammar take the parser on by exactly this phrase: an operand is
added to the open command, a pipeline fills a level, a node is added to the nodes that are there, and
its definitions to the definitions. The induction is on the derivation, and since it says where the
parser stands afterwards, the parts of a construct are run one after the other.
-/
import Stencil.Proofs.Collecting
import Stencil.Proofs.NodeReading

set_option autoImplicit false

namespace Stencil

open Stencil.Grammar Stencil.Runs

/-! ## Levels -/

/-- The level with further operands, the first of which stands at the first of their tokens. -/
def Level.gather (l : Level) : List PlacedToken → List Operand → Level
  | [], _ => l
  | t :: _, os => { l.reach t.pos with args := l.args ++ os }

namespace Parser

variable {defined : String → Bool} {s : State} {purpose : Purpose}

/-! ## Runs -/

theorem run_cons {t : PlacedToken} {ts : List PlacedToken} {next : State}
    (h : s.step defined t = .ok next) : run defined s (t :: ts) = run defined next ts := by
  unfold run
  rw [List.foldlM_cons, h]
  rfl

theorem run_append {ts us : List PlacedToken} {next : State} (h : run defined s ts = .ok next) :
    run defined s (ts ++ us) = run defined next us := by
  unfold run at h ⊢
  rw [List.foldlM_append, h]
  rfl

/-- From two states in which the first token makes the same, tokens make the same. -/
theorem run_congr {s s' : State} {t : PlacedToken} (ts : List PlacedToken)
    (h : s.step defined t = s'.step defined t) :
    run defined s (t :: ts) = run defined s' (t :: ts) := by
  unfold run
  rw [List.foldlM_cons, List.foldlM_cons, h]

theorem run_singleton (t : PlacedToken) : run defined s [t] = s.step defined t := by
  unfold run
  rw [List.foldlM_cons]
  cases s.step defined t with
  | error e => rfl
  | ok next => rfl

/-! ## Pipelines -/

theorem exists_cons_of_isOperand {ts : List PlacedToken} {o : Operand}
    (h : IsOperand defined ts o) : ∃ t us, ts = t :: us := by
  cases h with
  | value h => exact ⟨_, _, rfl⟩
  | function h => exact ⟨_, _, rfl⟩
  | parentheses h => exact ⟨_, _, rfl⟩

theorem eq_nil_of_isOperands {os : List Operand} (h : IsOperands defined [] os) : os = [] := by
  generalize hts : ([] : List PlacedToken) = ts at h
  cases h with
  | nil => rfl
  | snoc _ ho =>
    obtain ⟨t, us, rfl⟩ := exists_cons_of_isOperand ho
    exact absurd hts (by simp)

theorem ne_nil_of_isOperands {t : PlacedToken} {ts : List PlacedToken} {os : List Operand}
    (h : IsOperands defined (t :: ts) os) : os ≠ [] := by
  generalize hts : t :: ts = us at h
  cases h with
  | nil => exact absurd hts (by simp)
  | snoc _ _ => simp

/-- A further operand is gathered behind the others. -/
theorem gather_append {ts us : List PlacedToken} {u : PlacedToken} {os : List Operand} {o : Operand}
    (h : IsOperands defined ts os) (l : Level) :
    (l.gather ts os).add u.pos o = l.gather (ts ++ u :: us) (os ++ [o]) := by
  cases ts with
  | nil =>
    rw [eq_nil_of_isOperands h]
    rfl
  | cons t ts =>
    show Level.mk _ _ _ _ _ = Level.mk _ _ _ _ _
    rw [← List.append_assoc]
    rfl

/-- The operands of a command fill the open command of a level that has none yet. -/
theorem endCommand_of_gather {l : Level} {t : PlacedToken} {ts : List PlacedToken}
    {os : List Operand} (hos : os ≠ []) (hargs : l.args = []) (hstart : l.commandStart = none)
    (pos : Position) :
    (l.gather (t :: ts) os).endCommand pos
      = .ok ⟨l.construct, some (l.start.getD t.pos), l.commands ++ [⟨t.pos, os⟩], none, []⟩ := by
  have hgather : l.gather (t :: ts) os
      = ⟨l.construct, some (l.start.getD t.pos), l.commands, some t.pos, os⟩ := by
    show Level.mk _ _ _ _ _ = _
    rw [hargs, List.nil_append]
    show Level.mk _ _ _ (some (l.commandStart.getD t.pos)) _ = _
    rw [hstart]
    rfl
  rw [hgather, Level.endCommand, if_neg (by simpa using hos)]
  rfl

/-- The reader takes just those tokens for operands that are. -/
theorem isValue_iff {t : Token} {o : Operand} : IsValue t o ↔ t.operand? = some o := by
  constructor
  · intro h
    cases h <;> rfl
  · intro h
    unfold Token.operand? at h
    split at h
    case h_9 => exact absurd h (by simp)
    all_goals
      cases h
      constructor

theorem step_of_operand {outer : List Level} {inner : Level} {t : PlacedToken} {o : Operand}
    (h : t.token.operand? = some o) :
    PipelineProgress.step defined outer inner t = .ok (.reading outer (inner.add t.pos o)) := by
  obtain ⟨token, pos⟩ := t
  cases token with
  | text _ | actionStart | actionEnd | keyword _ | ident _ | pipe | leftParen | rightParen =>
    exact absurd h (by simp [Token.operand?])
  | _ =>
    cases h
    rfl

mutual

/-- The tokens of an operand add it to the open command, where the first of them stands. -/
theorem run_operand : ∀ {ts : List PlacedToken} {o : Operand}, IsOperand defined ts o →
    ∃ t us, ts = t :: us ∧ ∀ outer inner, run defined (s.reading purpose outer inner) ts
      = .ok (s.reading purpose outer (inner.add t.pos o))
  | _, _, @IsOperand.value _ t o h => by
    refine ⟨t, [], rfl, fun outer inner => ?_⟩
    rw [run_singleton]
    exact step_of_reading (step_of_operand (isValue_iff.1 h))
  | _, _, @IsOperand.function _ name pos h => by
    refine ⟨_, [], rfl, fun outer inner => ?_⟩
    rw [run_singleton]
    refine step_of_reading ?_
    simp only [PipelineProgress.step, h, if_true]
  | _, _, @IsOperand.parentheses _ left right ts p h => by
    refine ⟨_, _, rfl, fun outer inner => ?_⟩
    obtain ⟨l, hrun, hfinish⟩ :=
      run_pipeline h .parentheses (inner.reach left :: outer)
    have hopen : PipelineProgress.step defined outer inner ⟨.leftParen, left⟩
        = .ok (.reading (inner.reach left :: outer) (.opened .parentheses)) := rfl
    have hclose : PipelineProgress.step defined (inner.reach left :: outer) l ⟨.rightParen, right⟩
        = .ok (.reading outer (inner.add left (.pipeline p))) := by
      unfold PipelineProgress.step
      rw [hfinish]
      rfl
    rw [List.cons_append, run_cons (step_of_reading hopen), run_append hrun, run_singleton]
    exact step_of_reading hclose

theorem run_operands : ∀ {ts : List PlacedToken} {os : List Operand}, IsOperands defined ts os →
    ∀ outer inner, run defined (s.reading purpose outer inner) ts
      = .ok (s.reading purpose outer (inner.gather ts os))
  | _, _, .nil => fun _ _ => rfl
  | _, _, .snoc hos ho => by
    intro outer inner
    obtain ⟨u, us, rfl, hrun⟩ := run_operand ho
    rw [run_append (run_operands hos outer inner), hrun, gather_append hos]

/-- The tokens of commands fill a level of which nothing has been read. -/
theorem run_commands : ∀ {ts : List PlacedToken} {cs : List Command}, IsCommands defined ts cs →
    ∃ t us, ts = t :: us ∧ ∀ construct outer, ∃ l,
      run defined (s.reading purpose outer (.opened construct)) ts = .ok (s.reading purpose outer l)
        ∧ ∀ pos, l.endCommand pos = .ok ⟨construct, some t.pos, cs, none, []⟩
  | _, _, .one (@IsCommand.operands _ t ts os h) => by
    refine ⟨t, ts, rfl, fun construct outer => ⟨_, run_operands h outer _, fun pos => ?_⟩⟩
    exact endCommand_of_gather (ne_nil_of_isOperands h) rfl rfl pos
  | _, _, @IsCommands.piped _ _ _ bar cs _ hcs (@IsCommand.operands _ u us os h) => by
    obtain ⟨t, ts, rfl, hcommands⟩ := run_commands hcs
    refine ⟨t, _, rfl, fun construct outer => ?_⟩
    obtain ⟨l, hrun, hended⟩ := hcommands construct outer
    have hbar : PipelineProgress.step defined outer l ⟨.pipe, bar⟩
        = .ok (.reading outer ⟨construct, some t.pos, cs, none, []⟩) := by
      unfold PipelineProgress.step
      rw [hended]
      rfl
    refine ⟨Level.gather ⟨construct, some t.pos, cs, none, []⟩ (u :: us) os, ?_,
      fun pos => endCommand_of_gather (ne_nil_of_isOperands h) rfl rfl pos⟩
    rw [run_append hrun, run_cons (step_of_reading hbar)]
    exact run_operands h outer _

/-- The tokens of a pipeline bring a level to where the pipeline can be finished. -/
theorem run_pipeline : ∀ {ts : List PlacedToken} {p : Pipeline}, IsPipeline defined ts p →
    ∀ construct outer, ∃ l,
      run defined (s.reading purpose outer (.opened construct)) ts = .ok (s.reading purpose outer l)
        ∧ ∀ pos, l.finish pos = .ok p
  | _, _, @IsPipeline.commands _ t _ cs h => by
    intro construct outer
    obtain ⟨u, us, hts, hcommands⟩ := run_commands h
    obtain ⟨l, hrun, hended⟩ := hcommands construct outer
    refine ⟨l, hrun, fun pos => ?_⟩
    unfold Level.finish
    rw [hended, (List.cons.inj hts).1]
    rfl

end

/-- A pipeline and the closing delimiter do what the pipeline is read for. -/
theorem run_toEnd {ts : List PlacedToken} {p : Pipeline} (h : IsPipeline defined ts p)
    (construct : Construct) (close : Position) :
    run defined (s.reading purpose [] (.opened construct)) (ts ++ [⟨.actionEnd, close⟩])
      = s.finishPipeline p purpose := by
  obtain ⟨l, hrun, hfinish⟩ := run_pipeline h construct []
  have hdone : PipelineProgress.step defined [] l ⟨.actionEnd, close⟩ = .ok (.done p) := by
    unfold PipelineProgress.step
    rw [hfinish]
    rfl
  rw [run_append hrun, run_singleton]
  show (s.reading purpose [] l).stepPipeline defined purpose [] l ⟨.actionEnd, close⟩ = _
  unfold State.stepPipeline
  rw [hdone]
  exact finishPipeline_of_mode _ p purpose

/-! ## Actions -/

variable {nodes before : List Node} {opened : List Opened} {defines : List Tree}

theorem step_actionStart {start : Position} :
    State.step defined ⟨nodes, opened, defines, .outside⟩ ⟨.actionStart, start⟩
      = .ok ⟨nodes, opened, defines, .opened start⟩ := rfl

/-- A pipeline does not begin with a token that an action could go on with in another way. -/
theorem beginsPipeline_of_isPipeline {ts : List PlacedToken} {p : Pipeline}
    (h : IsPipeline defined ts p) : ∃ t us, ts = t :: us ∧ beginsPipeline t.token = true := by
  cases h with
  | @commands t us cs h =>
    refine ⟨t, us, rfl, ?_⟩
    -- Reading the pipeline gets by the first token, and would not if it were one of these.
    have hreads : ∃ l, run defined (State.initial.reading .output [] (.opened .command)) (t :: us)
        = .ok (State.initial.reading .output [] l) ∧ ∀ pos, l.finish pos = .ok ⟨t.pos, cs⟩ :=
      run_pipeline (.commands h) .command []
    obtain ⟨l, hrun, _⟩ := hreads
    unfold run at hrun
    rw [List.foldlM_cons] at hrun
    obtain ⟨next, hstep, _⟩ := monad_bind_eq_ok.1 hrun
    obtain ⟨token, pos⟩ := t
    cases token with
    | keyword _ | actionEnd => exact absurd hstep (by simp [State.step, State.reading,
        State.stepPipeline, PipelineProgress.step, Level.finish, Level.endCommand, Level.opened,
        Token.operand?, Bind.bind, Except.bind])
    | _ => rfl

/-- An action that is a pipeline adds a node. -/
theorem run_output {start close : Position} {ts : List PlacedToken} {p : Pipeline}
    (h : IsPipeline defined ts p) :
    run defined ⟨nodes, opened, defines, .outside⟩ (action start ts close)
      = .ok ⟨nodes ++ [.action p], opened, defines, .outside⟩ := by
  obtain ⟨t, us, hts, ht⟩ := beginsPipeline_of_isPipeline h
  have hfirst : State.step defined ⟨nodes, opened, defines, .opened start⟩ t
      = (State.reading ⟨nodes, opened, defines, .outside⟩ .output [] (.opened .command)).step defined t :=
    step_of_opened (s := ⟨nodes, opened, defines, .outside⟩) ht
  rw [action, List.cons_append, run_cons step_actionStart, hts, List.cons_append, run_congr _ hfirst,
    ← List.cons_append, ← hts]
  exact run_toEnd h .command close

/-- An action of a keyword and a pipeline does what the keyword reads the pipeline for. -/
theorem run_header {k : Keyword} {start : Position} {hs : List PlacedToken} {p : Pipeline}
    (h : IsHeader defined k start hs p)
    (hk : ∀ s : State, s.stepKeyword start k = .ok (s.awaitPipeline purpose)) :
    run defined ⟨nodes, opened, defines, .outside⟩ hs
      = State.finishPipeline ⟨nodes, opened, defines, .outside⟩ p purpose := by
  obtain @⟨place, close, ts, p, h⟩ := h
  have hword : State.step defined ⟨nodes, opened, defines, .opened start⟩ ⟨.keyword k, place⟩
      = .ok (State.awaitPipeline ⟨nodes, opened, defines, .opened start⟩ purpose) := hk _
  rw [action, List.cons_append, run_cons step_actionStart, List.cons_append, run_cons hword]
  exact (run_toEnd h purpose.construct close).trans
    (finishPipeline_of_mode (s := ⟨nodes, opened, defines, .outside⟩) (.opened start) p purpose)

theorem stepKeyword_rebinding (kind : Rebinding) (start : Position) (s : State) :
    s.stepKeyword start kind.keyword = .ok (s.awaitPipeline (.rebind kind start)) := by
  cases kind <;> rfl

/-- A further branch begins: the one before it is done. -/
theorem run_elseIf {hs : List PlacedToken} {p guard : Pipeline} {start : Position}
    {done : List Branch} (h : IsElseIf defined hs p) :
    run defined ⟨nodes, ⟨.branch start done guard, before⟩ :: opened, defines, .outside⟩ hs
      = .ok ⟨[], ⟨.branch start (done ++ [⟨guard, nodes⟩]) p, before⟩ :: opened, defines, .outside⟩ := by
  obtain ⟨h⟩ := h
  rw [action, List.cons_append, run_cons rfl, List.cons_append, run_cons rfl, List.cons_append,
    run_cons rfl]
  exact run_toEnd h .elseIf _

/-- The keyword of a call or a block. -/
def Named.keyword : Named → Keyword
  | .call => .templateWord
  | .block => .blockWord

/-- An action with a name and perhaps a pipeline is complete behind them. -/
theorem run_namedHeader (kind : Named) {start : Position} {name : String} {hs : List PlacedToken}
    {p : Option Pipeline} (h : IsNamedHeader defined kind.keyword start name hs p) :
    run defined ⟨nodes, opened, defines, .outside⟩ hs
      = .ok (State.finishNamed ⟨nodes, opened, defines, .outside⟩ kind start name p) := by
  obtain @⟨place, place', close, ts, p, h⟩ := h
  have hword : State.step defined ⟨nodes, opened, defines, .opened start⟩
      ⟨.keyword kind.keyword, place⟩ = .ok ⟨nodes, opened, defines, .naming kind start⟩ := by
    cases kind <;> rfl
  have hname : State.step defined ⟨nodes, opened, defines, .naming kind start⟩
      ⟨.string name, place'⟩ = .ok ⟨nodes, opened, defines, .named kind start name⟩ := rfl
  rw [action, List.cons_append, run_cons step_actionStart, List.cons_append, run_cons hword, List.cons_append,
    run_cons hname]
  cases h with
  | missing =>
    rw [List.nil_append, run_singleton]
    cases kind <;> rfl
  | @given _ p h =>
    obtain ⟨t, us, hts, ht⟩ := beginsPipeline_of_isPipeline h
    have hfirst : State.step defined ⟨nodes, opened, defines, .named kind start name⟩ t
        = (State.reading ⟨nodes, opened, defines, .outside⟩ (.named kind start name) []
            (.opened kind.construct)).step defined t :=
      step_of_named (s := ⟨nodes, opened, defines, .outside⟩) ht
    rw [hts, List.cons_append, run_congr _ hfirst, ← List.cons_append, ← hts]
    exact run_toEnd h kind.construct close

theorem run_elseClause {hs : List PlacedToken} {frame next : Frame} (h : IsClause .elseWord hs)
    (hnext : elseFrame? nodes frame = some next) :
    run defined ⟨nodes, ⟨frame, before⟩ :: opened, defines, .outside⟩ hs
      = .ok ⟨[], ⟨next, before⟩ :: opened, defines, .outside⟩ := by
  obtain @⟨start, place, close⟩ := h
  have htokens : (action start [⟨.keyword .elseWord, place⟩] close).map PlacedToken.token
      = Piece.elseClause.tokens := rfl
  obtain ⟨s', hrun, rfl⟩ := leads_elseClause hnext _ htokens
  exact hrun

/-- An end does what the end of the innermost construct does. -/
theorem run_endClause {vs : List PlacedToken} (h : IsClause .endWord vs) :
    ∃ pos, ∀ nodes opened defines, run defined ⟨nodes, opened, defines, .outside⟩ vs
      = State.endClause ⟨nodes, opened, defines, .closing pos .endClause⟩ pos := by
  obtain @⟨start, place, close⟩ := h
  refine ⟨start, fun nodes opened defines => ?_⟩
  rw [action, List.cons_append, run_cons rfl, List.cons_append, run_cons rfl, List.nil_append,
    run_singleton]
  rfl

theorem run_defineHeader {hs : List PlacedToken} {name : String} (h : IsDefineHeader name hs) :
    ∃ pos, ∀ nodes defines, run defined ⟨nodes, [], defines, .outside⟩ hs
      = .ok ⟨[], [⟨.define pos name, nodes⟩], defines, .outside⟩ := by
  obtain @⟨start, place, place', close⟩ := h
  exact ⟨place', fun _ _ => rfl⟩

/-! ## Definitions on the way -/

/-- Says that tokens take the parser on from given nodes in given frames to others, and that the only
thing which may go wrong is to add the definitions found on the way. -/
def Takes (defined : String → Bool) (ts : List PlacedToken) (nodes : List Node)
    (opened : List Opened) (placed : List (Tree × Position)) (nodes' : List Node)
    (opened' : List Opened) : Prop :=
  ∀ defines, run defined ⟨nodes, opened, defines, .outside⟩ ts
    = (addDefines placed defines).map fun ds => ⟨nodes', opened', ds, .outside⟩

namespace Takes

variable {ts us : List PlacedToken} {nodes nodes' nodes'' : List Node}
  {opened opened' opened'' : List Opened} {placed placed' : List (Tree × Position)}

theorem of_run (h : ∀ defines, run defined ⟨nodes, opened, defines, .outside⟩ ts
    = .ok ⟨nodes', opened', defines, .outside⟩) :
    Takes defined ts nodes opened [] nodes' opened' := h

theorem append (h : Takes defined ts nodes opened placed nodes' opened')
    (h' : Takes defined us nodes' opened' placed' nodes'' opened'') :
    Takes defined (ts ++ us) nodes opened (placed ++ placed') nodes'' opened'' := by
  intro defines
  have hts := h defines
  unfold run at hts ⊢
  rw [addDefines_append, List.foldlM_append, hts]
  cases addDefines placed defines with
  | error e => rfl
  | ok ds => exact h' ds

/-- The end of a definition leaves what it interrupted as it was. -/
theorem define {start : Position} {name : String} {before : List Node}
    (h : IsClause .endWord us) :
    Takes defined us nodes (⟨.define start name, before⟩ :: opened) [(⟨name, nodes⟩, start)]
      before opened := by
  intro defines
  obtain ⟨pos, hend⟩ := run_endClause h
  rw [hend]
  show ((addDefine ⟨name, nodes⟩ start defines).bind _).bind _ = ((addDefine _ start defines).bind _).map _
  cases addDefine ⟨name, nodes⟩ start defines with
  | error e => rfl
  | ok ds => rfl

/-- The end of a block leaves a call behind what it interrupted. -/
theorem block {start : Position} {name : String} {p : Option Pipeline} {before : List Node}
    (h : IsClause .endWord us) :
    Takes defined us nodes (⟨.block start name p, before⟩ :: opened) [(⟨name, nodes⟩, start)]
      (before ++ [.call start name p]) opened := by
  intro defines
  obtain ⟨pos, hend⟩ := run_endClause h
  rw [hend]
  show ((addDefine ⟨name, nodes⟩ start defines).bind _).bind _ = ((addDefine _ start defines).bind _).map _
  cases addDefine ⟨name, nodes⟩ start defines with
  | error e => rfl
  | ok ds => rfl

end Takes

/-! ## Nodes -/

mutual

/-- The tokens of a node add it, and the definitions found in it. -/
theorem takes_node : ∀ {ts : List PlacedToken} {n : Node} {ds : List Tree}, IsNode defined ts n ds →
    ∃ placed, placed.map Prod.fst = ds ∧
      ∀ nodes opened, Takes defined ts nodes opened placed (nodes ++ [n]) opened
  | _, _, _, .text => by
    refine ⟨[], rfl, fun nodes opened => .of_run fun defines => ?_⟩
    rw [run_singleton]
    rfl
  | _, _, _, .output h => ⟨[], rfl, fun _ _ => .of_run fun _ => run_output h⟩
  | _, _, _, @IsNode.conditional _ start ts us vs bs otherwise ds ds' hbs hotherwise hend => by
    obtain ⟨placed, hplaced, done, guard, body, rfl, hbranches⟩ := takes_branches hbs
    obtain ⟨placed', hplaced', helse⟩ := takes_alternative hotherwise
    refine ⟨placed ++ placed', by rw [List.map_append, hplaced, hplaced'], fun nodes opened => ?_⟩
    have hinside := (hbranches nodes opened).append (helse _ _ _ _ _ rfl)
    rw [← List.append_nil (placed ++ placed')]
    refine hinside.append (.of_run fun defines => ?_)
    obtain ⟨pos, hstop⟩ := run_endClause hend
    cases otherwise with
    | none => exact hstop _ _ _
    | some other => exact hstop _ _ _
  | _, _, _, @IsNode.rebind _ kind start hs ts us vs p body otherwise ds ds' hhead hbody hotherwise
      hend => by
    obtain ⟨placed, hplaced, hnodes⟩ := takes_nodes hbody
    obtain ⟨placed', hplaced', helse⟩ := takes_alternative hotherwise
    refine ⟨placed ++ placed', by rw [List.map_append, hplaced, hplaced'], fun nodes opened => ?_⟩
    have hopen : Takes defined hs nodes opened [] [] (⟨.rebind kind start p, nodes⟩ :: opened) :=
      .of_run fun _ => run_header hhead (stepKeyword_rebinding kind start)
    have hinside := (hopen.append (hnodes _ _ (by simp))).append (helse _ _ _ _ _ rfl)
    rw [← List.append_nil (placed ++ placed')]
    refine hinside.append (.of_run fun defines => ?_)
    obtain ⟨pos, hstop⟩ := run_endClause hend
    cases otherwise with
    | none => exact hstop _ _ _
    | some other => exact hstop _ _ _
  | _, _, _, .call h => ⟨[], rfl, fun _ _ => .of_run fun _ => run_namedHeader .call h⟩
  | _, _, _, @IsNode.block _ start name hs ts us p body ds hhead hbody hend => by
    obtain ⟨placed, hplaced, hnodes⟩ := takes_nodes hbody
    refine ⟨placed ++ [(⟨name, body⟩, start)], by rw [List.map_append, hplaced]; rfl,
      fun nodes opened => ?_⟩
    have hopen : Takes defined hs nodes opened [] [] (⟨.block start name p, nodes⟩ :: opened) :=
      .of_run fun _ => run_namedHeader .block hhead
    exact (hopen.append (hnodes _ _ (by simp))).append (.block hend)

/-- The tokens of a list of nodes add them. The outermost list is read with nothing open. -/
theorem takes_nodes : ∀ {outermost : Bool} {ts : List PlacedToken} {ns : List Node} {ds : List Tree},
    IsNodes defined outermost ts ns ds →
    ∃ placed, placed.map Prod.fst = ds ∧
      ∀ nodes opened, (outermost = true → opened = []) →
        Takes defined ts nodes opened placed (nodes ++ ns) opened
  | _, _, _, _, .nil => by
    refine ⟨[], rfl, fun nodes opened _ => .of_run fun defines => ?_⟩
    rw [List.append_nil]
    rfl
  | _, _, _, _, .node hns hn => by
    obtain ⟨placed, hplaced, hnodes⟩ := takes_nodes hns
    obtain ⟨placed', hplaced', hnode⟩ := takes_node hn
    refine ⟨placed ++ placed', by rw [List.map_append, hplaced, hplaced'], fun nodes opened h => ?_⟩
    rw [← List.append_assoc]
    exact (hnodes nodes opened h).append (hnode _ _)
  | _, _, _, _, @IsNodes.define _ ts hs us vs ns body name ds ds' hns hhead hbody hend => by
    obtain ⟨placed, hplaced, hbefore⟩ := takes_nodes hns
    obtain ⟨placed', hplaced', hinside⟩ := takes_nodes hbody
    obtain ⟨start, hopen⟩ := run_defineHeader hhead
    refine ⟨placed ++ (placed' ++ [(⟨name, body⟩, start)]),
      by rw [List.map_append, List.map_append, hplaced, hplaced']; rfl, fun nodes opened h => ?_⟩
    obtain rfl : opened = [] := h rfl
    have hheader : Takes defined hs (nodes ++ ns) [] [] [] [⟨.define start name, nodes ++ ns⟩] :=
      .of_run fun defines => hopen _ defines
    exact (hbefore nodes [] h).append ((hheader.append (hinside _ _ (by simp))).append (.define hend))

theorem takes_branches : ∀ {start : Position} {ts : List PlacedToken} {bs : List Branch}
    {ds : List Tree}, IsBranches defined start ts bs ds →
    ∃ placed, placed.map Prod.fst = ds ∧ ∃ done guard body, bs = done ++ [⟨guard, body⟩] ∧
      ∀ nodes opened,
        Takes defined ts nodes opened placed body (⟨.branch start done guard, nodes⟩ :: opened)
  | _, _, _, _, @IsBranches.first _ start hs ts p body ds hhead hbody => by
    obtain ⟨placed, hplaced, hnodes⟩ := takes_nodes hbody
    refine ⟨placed, hplaced, [], p, body, rfl, fun nodes opened => ?_⟩
    have hopen : Takes defined hs nodes opened [] [] (⟨.branch start [] p, nodes⟩ :: opened) :=
      .of_run fun _ => run_header hhead fun _ => rfl
    exact hopen.append (hnodes _ _ (by simp))
  | _, _, _, _, @IsBranches.further _ start ts hs us bs p body ds ds' hbs hhead hbody => by
    obtain ⟨placed, hplaced, done, guard, last, rfl, hbranches⟩ := takes_branches hbs
    obtain ⟨placed', hplaced', hnodes⟩ := takes_nodes hbody
    refine ⟨placed ++ placed', by rw [List.map_append, hplaced, hplaced'],
      done ++ [⟨guard, last⟩], p, body, rfl, fun nodes opened => ?_⟩
    have hopen := (hbranches nodes opened).append (.of_run fun _ => run_elseIf hhead)
    rw [List.append_nil] at hopen
    exact hopen.append (hnodes _ _ (by simp))

theorem takes_alternative : ∀ {ts : List PlacedToken} {otherwise : Option (List Node)}
    {ds : List Tree}, IsAlternative defined ts otherwise ds →
    ∃ placed, placed.map Prod.fst = ds ∧
      ∀ nodes before opened frame next, elseFrame? nodes frame = some next →
        Takes defined ts nodes (⟨frame, before⟩ :: opened) placed (otherwise.getD nodes)
          (⟨if otherwise.isSome then next else frame, before⟩ :: opened)
  | _, _, _, .missing => ⟨[], rfl, fun _ _ _ _ _ _ => .of_run fun _ => rfl⟩
  | _, _, _, .given hhead hbody => by
    obtain ⟨placed, hplaced, hnodes⟩ := takes_nodes hbody
    refine ⟨placed, hplaced, fun nodes before opened frame next hnext => ?_⟩
    have helse : Takes defined _ nodes (⟨frame, before⟩ :: opened) [] [] (⟨next, before⟩ :: opened) :=
      .of_run fun _ => run_elseClause hhead hnext
    exact helse.append (hnodes _ _ (by simp))

end

/-- The tokens of an outermost list of nodes are read to the end, if its definitions fit together. -/
theorem run_of_isNodes {tokens : List PlacedToken} {nodes : List Node} {ds : List Tree}
    (h : IsNodes defined true tokens nodes ds) (hcompatible : Compatible ds) :
    run defined .initial tokens = .ok ⟨nodes, [], collected ds, .outside⟩ := by
  obtain ⟨placed, rfl, htakes⟩ := takes_nodes h
  have hadd : addDefines placed [] = .ok (collected (placed.map Prod.fst)) :=
    (addDefines_collected_iff .nil).2 ⟨hcompatible, rfl⟩
  have hrun := htakes [] [] (fun _ => rfl) []
  rwa [hadd] at hrun

/-- A template of the grammar is parsed, and parsed to what the grammar says. -/
theorem parseTokens_of_isTemplate {functions : FuncTable} {name : String}
    {tokens : List PlacedToken} {parsed : ParsedSource}
    (h : IsTemplate functions name tokens parsed) :
    parseTokens functions.defines name tokens = .ok parsed := by
  obtain ⟨nodes, ds, hnodes, hcompatible, rfl⟩ := h
  unfold parseTokens
  rw [run_of_isNodes hnodes hcompatible]
  rfl

end Parser

end Stencil
