/-
What the parser makes of tokens does not depend on where they stand.

Positions are copied from tokens into trees and messages, and nothing is ever decided by one. So
forgetting them before the parser takes a token and forgetting them afterwards is the same, for every
part of a state and for failures as well. This is said of each function of the parser by one equation,
and those of a step give those of a whole parse.
-/
import Stencil.Proofs.GrammarReading

set_option autoImplicit false

namespace Stencil

/-! ## Lists of parts -/

theorem Operand.unplacedAll_eq_map (os : List Operand) :
    Operand.unplacedAll os = os.map Operand.unplaced := by
  induction os with
  | nil => rfl
  | cons o os ih => rw [Operand.unplacedAll, ih, List.map_cons]

theorem Command.unplacedAll_eq_map (cs : List Command) :
    Command.unplacedAll cs = cs.map Command.unplaced := by
  induction cs with
  | nil => rfl
  | cons c cs ih => rw [Command.unplacedAll, ih, List.map_cons]

theorem Node.unplacedAll_eq_map (ns : List Node) :
    Node.unplacedAll ns = ns.map Node.unplaced := by
  induction ns with
  | nil => rfl
  | cons n ns ih => rw [Node.unplacedAll, ih, List.map_cons]

/-- The branch with all positions forgotten. -/
def Branch.unplaced (b : Branch) : Branch := ⟨b.condition.unplaced, b.body.map Node.unplaced⟩

theorem Branch.unplacedAll_eq_map (bs : List Branch) :
    Branch.unplacedAll bs = bs.map Branch.unplaced := by
  induction bs with
  | nil => rfl
  | cons b bs ih =>
    obtain ⟨condition, body⟩ := b
    rw [Branch.unplacedAll, ih, Node.unplacedAll_eq_map, List.map_cons]
    rfl

theorem Node.unplacedAlternative_eq_map (otherwise : Option (List Node)) :
    Node.unplacedAlternative otherwise = otherwise.map (List.map Node.unplaced) := by
  cases otherwise with
  | none => rfl
  | some body => rw [Node.unplacedAlternative, Node.unplacedAll_eq_map, Option.map_some]

theorem Node.unplaced_conditional (pos : Position) (bs : List Branch)
    (otherwise : Option (List Node)) : (Node.conditional pos bs otherwise).unplaced
      = .conditional .start (bs.map Branch.unplaced) (otherwise.map (List.map Node.unplaced)) := by
  rw [Node.unplaced, Branch.unplacedAll_eq_map, Node.unplacedAlternative_eq_map]

theorem Node.unplaced_rebind (kind : Rebinding) (pos : Position) (p : Pipeline) (body : List Node)
    (otherwise : Option (List Node)) : (Node.rebind kind pos p body otherwise).unplaced
      = .rebind kind .start p.unplaced (body.map Node.unplaced)
          (otherwise.map (List.map Node.unplaced)) := by
  rw [Node.unplaced, Node.unplacedAll_eq_map, Node.unplacedAlternative_eq_map]

theorem Tree.unplaced_mk (name : String) (root : List Node) :
    Tree.unplaced ⟨name, root⟩ = ⟨name, root.map Node.unplaced⟩ := by
  rw [Tree.unplaced, Node.unplacedAll_eq_map]

theorem Node.isBlank_unplaced (n : Node) : n.unplaced.isBlank = n.isBlank := by
  cases n <;> rfl

/-- Whether a template has content does not depend on positions. -/
@[simp]
theorem Tree.isEmpty_unplaced (t : Tree) : t.unplaced.isEmpty = t.isEmpty := by
  show (Node.unplacedAll t.root).all Node.isBlank = t.root.all Node.isBlank
  rw [Node.unplacedAll_eq_map, List.all_map]
  congr 1
  exact funext Node.isBlank_unplaced

/-! ## Failures -/

/-- The failure with its place forgotten. -/
def ParseError.unplaced (e : ParseError) : ParseError := ⟨e.cause, .start⟩

/-- An outcome of the parser with all positions forgotten, `f` doing so for what it gives. -/
def unplacedOutcome {α β : Type} (f : α → β) : Except ParseError α → Except ParseError β
  | .ok a => .ok (f a)
  | .error e => .error e.unplaced

/-- Two parts of the parser that do not depend on positions do not so one after the other. -/
theorem unplacedOutcome_bind {α α' β β' : Type} {f : α → α'} {g : β → β'}
    {x : Except ParseError α} {x' : Except ParseError α'} {k : α → Except ParseError β}
    {k' : α' → Except ParseError β'} (hx : x' = unplacedOutcome f x)
    (hk : ∀ a, k' (f a) = unplacedOutcome g (k a)) :
    x' >>= k' = unplacedOutcome g (x >>= k) := by
  rw [hx]
  cases x with
  | error e => rfl
  | ok a => exact hk a

/-! ## Pipelines -/

/-- The token with its place forgotten. -/
def PlacedToken.unplaced (t : PlacedToken) : PlacedToken := ⟨t.token, .start⟩

@[simp]
theorem Position.getD_map_start (p : Option Position) :
    (p.map fun _ => Position.start).getD .start = .start := by
  cases p <;> rfl

namespace Level

/-- The level with all positions forgotten. -/
def unplaced (l : Level) : Level :=
  ⟨l.construct, l.start.map (fun _ => .start), l.commands.map Command.unplaced,
    l.commandStart.map (fun _ => .start), l.args.map Operand.unplaced⟩

theorem reach_unplaced (l : Level) (pos : Position) :
    l.unplaced.reach .start = (l.reach pos).unplaced := by
  simp [unplaced, reach]

theorem add_unplaced (l : Level) (pos : Position) (o : Operand) :
    l.unplaced.add .start o.unplaced = (l.add pos o).unplaced := by
  simp [unplaced, add, reach]

theorem endCommand_unplaced (l : Level) (pos : Position) :
    l.unplaced.endCommand .start = unplacedOutcome unplaced (l.endCommand pos) := by
  unfold endCommand
  by_cases hargs : l.args.isEmpty = true
  · have hargs' : l.unplaced.args.isEmpty = true := by simpa [unplaced] using hargs
    rw [if_pos hargs, if_pos hargs']
    simp [unplacedOutcome, ParseError.unplaced, unplaced]
  · have hargs' : ¬ l.unplaced.args.isEmpty = true := by simpa [unplaced] using hargs
    rw [if_neg hargs, if_neg hargs']
    simp [unplacedOutcome, unplaced, Command.unplaced, Operand.unplacedAll_eq_map]

theorem finish_unplaced (l : Level) (pos : Position) :
    l.unplaced.finish .start = unplacedOutcome Pipeline.unplaced (l.finish pos) := by
  refine unplacedOutcome_bind (l.endCommand_unplaced pos) fun ended => ?_
  simp [unplacedOutcome, unplaced, Pipeline.unplaced, Command.unplacedAll_eq_map]

end Level

namespace PipelineProgress

/-- The progress with all positions forgotten. -/
def unplaced : PipelineProgress → PipelineProgress
  | .reading outer inner => .reading (outer.map Level.unplaced) inner.unplaced
  | .done p => .done p.unplaced

theorem operand?_unplaced {t : Token} {o : Operand} (h : t.operand? = some o) : o.unplaced = o := by
  cases t <;> simp [Token.operand?] at h <;> rw [← h] <;> rfl

theorem step_unplaced (defined : String → Bool) (outer : List Level) (inner : Level)
    (t : PlacedToken) :
    step defined (outer.map Level.unplaced) inner.unplaced t.unplaced
      = unplacedOutcome unplaced (step defined outer inner t) := by
  obtain ⟨token, pos⟩ := t
  cases ho : token.operand? with
  | some o =>
    have hadd := inner.add_unplaced pos o
    rw [operand?_unplaced ho] at hadd
    have hunplaced : step defined (outer.map Level.unplaced) inner.unplaced ⟨token, .start⟩
        = .ok (.reading (outer.map Level.unplaced) (inner.unplaced.add .start o)) :=
      Parser.step_of_operand ho
    refine hunplaced.trans ?_
    rw [Parser.step_of_operand ho]
    exact congrArg (fun l => Except.ok (reading _ l)) hadd
  | none =>
    cases token with
    | pipe => exact unplacedOutcome_bind (inner.endCommand_unplaced pos) fun _ => rfl
    | actionEnd =>
      refine unplacedOutcome_bind (inner.finish_unplaced pos) fun finished => ?_
      cases outer <;> rfl
    | rightParen =>
      refine unplacedOutcome_bind (inner.finish_unplaced pos) fun finished => ?_
      cases outer with
      | nil => rfl
      | cons next more =>
        exact congrArg (fun l => Except.ok (reading _ l)) (next.add_unplaced pos (.pipeline finished))
    | leftParen => exact congrArg (fun l => Except.ok (reading (l :: _) _)) (inner.reach_unplaced pos)
    | ident name =>
      show (if defined name then Except.ok (reading _ (inner.unplaced.add .start _)) else _)
        = unplacedOutcome _ (if defined name then _ else _)
      by_cases hname : defined name = true
      · rw [if_pos hname, if_pos hname]
        exact congrArg (fun l => Except.ok (reading _ l)) (inner.add_unplaced pos (.function name))
      · rw [if_neg hname, if_neg hname]
        rfl
    | text _ | actionStart | keyword _ => rfl
    | _ => exact absurd ho (by simp [Token.operand?])

end PipelineProgress

/-! ## States -/

namespace Parser

/-- The frame with all positions forgotten. -/
def Frame.unplaced : Frame → Frame
  | .branch _ done condition => .branch .start (done.map Branch.unplaced) condition.unplaced
  | .elseOfBranches _ branches => .elseOfBranches .start (branches.map Branch.unplaced)
  | .rebind kind _ p => .rebind kind .start p.unplaced
  | .elseOfRebind kind _ p body => .elseOfRebind kind .start p.unplaced (body.map Node.unplaced)
  | .define _ name => .define .start name
  | .block _ name p => .block .start name (p.map Pipeline.unplaced)

/-- The purpose with all positions forgotten. -/
def Purpose.unplaced : Purpose → Purpose
  | .output => .output
  | .condition _ => .condition .start
  | .elseIf _ => .elseIf .start
  | .rebind kind _ => .rebind kind .start
  | .named kind _ name => .named kind .start name

theorem Purpose.construct_unplaced (purpose : Purpose) :
    purpose.unplaced.construct = purpose.construct := by
  cases purpose <;> rfl

/-- What an action does behind its closing delimiter, with all positions forgotten. -/
def Closing.unplaced : Closing → Closing
  | .endClause => .endClause
  | .elseClause => .elseClause
  | .define _ name => .define .start name

theorem Closing.construct_unplaced (what : Closing) : what.unplaced.construct = what.construct := by
  cases what <;> rfl

/-- The mode with all positions forgotten. -/
def Mode.unplaced : Mode → Mode
  | .outside => .outside
  | .opened _ => .opened .start
  | .afterElse _ => .afterElse .start
  | .closing _ what => .closing .start what.unplaced
  | .namingDefine => .namingDefine
  | .naming kind _ => .naming kind .start
  | .named kind _ name => .named kind .start name
  | .pipeline purpose outer inner =>
    .pipeline purpose.unplaced (outer.map Level.unplaced) inner.unplaced

theorem Mode.eq_outside_of_unplaced {m : Mode} (h : m.unplaced = .outside) : m = .outside := by
  cases m with
  | outside => rfl
  | _ => cases h

/-- The open construct with all positions forgotten. -/
def Opened.unplaced (o : Opened) : Opened := ⟨o.frame.unplaced, o.before.map Node.unplaced⟩

namespace State

/-- The state with all positions forgotten. -/
def unplaced (s : State) : State :=
  ⟨s.nodes.map Node.unplaced, s.opened.map Opened.unplaced, s.defines.map Tree.unplaced,
    s.mode.unplaced⟩

theorem push_unplaced (s : State) (n : Node) : s.unplaced.push n.unplaced = (s.push n).unplaced := by
  simp [push, unplaced, Mode.unplaced]

theorem addDefine_unplaced (tree : Tree) (pos : Position) (ds : List Tree) :
    addDefine tree.unplaced .start (ds.map Tree.unplaced)
      = unplacedOutcome (List.map Tree.unplaced) (addDefine tree pos ds) := by
  induction ds with
  | nil => rfl
  | cons t rest ih =>
    rw [List.map_cons, addDefine, addDefine, Tree.isEmpty_unplaced, Tree.isEmpty_unplaced]
    show (if t.name = tree.name then _ else _) = _
    by_cases hname : t.name = tree.name
    · rw [if_pos hname, if_pos hname]
      split
      · rfl
      · split
        · rfl
        · rfl
    · rw [if_neg hname, if_neg hname]
      exact unplacedOutcome_bind ih fun _ => rfl

theorem define_unplaced (s : State) (pos : Position) (name : String) :
    s.unplaced.define .start name = unplacedOutcome unplaced (s.define pos name) := by
  have htree : (⟨name, s.unplaced.nodes⟩ : Tree) = Tree.unplaced ⟨name, s.nodes⟩ :=
    (Tree.unplaced_mk name s.nodes).symm
  unfold define
  rw [htree]
  exact unplacedOutcome_bind (addDefine_unplaced ⟨name, s.nodes⟩ pos s.defines) fun _ => rfl

/-- A construct that becomes a node does so up to positions. -/
theorem leave_push_unplaced (s : State) (before : List Node) (outer : List Opened) {n n' : Node}
    (h : n' = n.unplaced) :
    (s.unplaced.leave (before.map Node.unplaced) (outer.map Opened.unplaced)).push n'
      = ((s.leave before outer).push n).unplaced := by
  rw [h]
  exact push_unplaced (s.leave before outer) n

theorem endClause_unplaced (s : State) (pos : Position) :
    s.unplaced.endClause .start = unplacedOutcome unplaced (s.endClause pos) := by
  obtain ⟨nodes, opened, defines, m⟩ := s
  cases opened with
  | nil => rfl
  | cons o outer =>
    obtain ⟨frame, before⟩ := o
    cases frame with
    | branch start done condition =>
      refine congrArg Except.ok (leave_push_unplaced _ before outer ?_)
      rw [Node.unplaced_conditional, List.map_append]
      rfl
    | elseOfBranches start branches =>
      refine congrArg Except.ok (leave_push_unplaced _ before outer ?_)
      rw [Node.unplaced_conditional]
      rfl
    | rebind kind start p =>
      refine congrArg Except.ok (leave_push_unplaced _ before outer ?_)
      rw [Node.unplaced_rebind]
      rfl
    | elseOfRebind kind start p body =>
      refine congrArg Except.ok (leave_push_unplaced _ before outer ?_)
      rw [Node.unplaced_rebind]
      rfl
    | define start name => exact unplacedOutcome_bind (define_unplaced _ start name) fun _ => rfl
    | block start name p =>
      refine unplacedOutcome_bind (define_unplaced _ start name) fun defined => ?_
      exact congrArg Except.ok (leave_push_unplaced defined before outer rfl)

theorem elseClause_unplaced (s : State) (pos : Position) :
    s.unplaced.elseClause .start = unplacedOutcome unplaced (s.elseClause pos) := by
  obtain ⟨nodes, opened, defines, m⟩ := s
  cases opened with
  | nil => rfl
  | cons o outer =>
    obtain ⟨frame, before⟩ := o
    cases frame with
    | branch start done condition =>
      simp [elseClause, unplaced, unplacedOutcome, switch, Opened.unplaced, Frame.unplaced,
        Branch.unplaced, Mode.unplaced]
    | _ => rfl

theorem elseIf_unplaced (s : State) (pos : Position) (p : Pipeline) :
    s.unplaced.elseIf .start p.unplaced = unplacedOutcome unplaced (s.elseIf pos p) := by
  obtain ⟨nodes, opened, defines, m⟩ := s
  cases opened with
  | nil => rfl
  | cons o outer =>
    obtain ⟨frame, before⟩ := o
    cases frame with
    | branch start done condition =>
      simp [elseIf, unplaced, unplacedOutcome, switch, Opened.unplaced, Frame.unplaced,
        Branch.unplaced, Mode.unplaced]
    | _ => rfl

theorem finishNamed_unplaced (s : State) (kind : Named) (pos : Position) (name : String)
    (p : Option Pipeline) :
    s.unplaced.finishNamed kind .start name (p.map Pipeline.unplaced)
      = (s.finishNamed kind pos name p).unplaced := by
  cases kind with
  | call => exact push_unplaced s (.call pos name p)
  | block => rfl

theorem finishPipeline_unplaced (s : State) (p : Pipeline) (purpose : Purpose) :
    s.unplaced.finishPipeline p.unplaced purpose.unplaced
      = unplacedOutcome unplaced (s.finishPipeline p purpose) := by
  cases purpose with
  | output => exact congrArg Except.ok (push_unplaced s (.action p))
  | condition pos => rfl
  | elseIf pos => exact elseIf_unplaced s pos p
  | rebind kind pos => rfl
  | named kind pos name => exact congrArg Except.ok (finishNamed_unplaced s kind pos name (some p))

theorem finishClosing_unplaced (s : State) (pos : Position) (what : Closing) :
    s.unplaced.finishClosing .start what.unplaced
      = unplacedOutcome unplaced (s.finishClosing pos what) := by
  cases what with
  | endClause => exact endClause_unplaced s pos
  | elseClause => exact elseClause_unplaced s pos
  | define start name => rfl

theorem stepPipeline_unplaced (defined : String → Bool) (s : State) (purpose : Purpose)
    (outer : List Level) (inner : Level) (t : PlacedToken) :
    s.unplaced.stepPipeline defined purpose.unplaced (outer.map Level.unplaced) inner.unplaced
      t.unplaced = unplacedOutcome unplaced (s.stepPipeline defined purpose outer inner t) := by
  refine unplacedOutcome_bind (PipelineProgress.step_unplaced defined outer inner t) fun progress => ?_
  cases progress with
  | reading outer inner => rfl
  | done p => exact finishPipeline_unplaced s p purpose

theorem beginPipeline_unplaced (defined : String → Bool) (s : State) (purpose : Purpose)
    (t : PlacedToken) :
    s.unplaced.beginPipeline defined purpose.unplaced t.unplaced
      = unplacedOutcome unplaced (s.beginPipeline defined purpose t) := by
  have h := stepPipeline_unplaced defined s purpose [] (.opened purpose.construct) t
  unfold beginPipeline
  rw [Purpose.construct_unplaced]
  exact h

theorem awaitPipeline_unplaced (s : State) (purpose : Purpose) :
    s.unplaced.awaitPipeline purpose.unplaced = (s.awaitPipeline purpose).unplaced := by
  unfold awaitPipeline
  rw [Purpose.construct_unplaced]
  rfl

theorem stepKeyword_unplaced (s : State) (pos : Position) (k : Keyword) :
    s.unplaced.stepKeyword .start k = unplacedOutcome unplaced (s.stepKeyword pos k) := by
  cases k with
  | ifWord => exact congrArg Except.ok (awaitPipeline_unplaced s (.condition pos))
  | rangeWord => exact congrArg Except.ok (awaitPipeline_unplaced s (.rebind .range pos))
  | withWord => exact congrArg Except.ok (awaitPipeline_unplaced s (.rebind .scoped pos))
  | defineWord =>
    obtain ⟨nodes, opened, defines, m⟩ := s
    cases opened <;> rfl
  | _ => rfl

theorem stepClosing_unplaced (s : State) (pos : Position) (what : Closing) (t : PlacedToken) :
    s.unplaced.stepClosing .start what.unplaced t.unplaced
      = unplacedOutcome unplaced (s.stepClosing pos what t) := by
  obtain ⟨token, place⟩ := t
  cases token with
  | actionEnd => exact finishClosing_unplaced s pos what
  | _ =>
    refine congrArg Except.error ?_
    show ParseError.mk (.unexpectedToken _ what.unplaced.construct) _ = ⟨.unexpectedToken _ _, _⟩
    rw [Closing.construct_unplaced]
    rfl

/-- **A step does not depend on positions.** -/
theorem step_unplaced (defined : String → Bool) (s : State) (t : PlacedToken) :
    s.unplaced.step defined t.unplaced = unplacedOutcome unplaced (s.step defined t) := by
  obtain ⟨nodes, opened, defines, m⟩ := s
  obtain ⟨token, place⟩ := t
  cases m with
  | outside =>
    cases token with
    | text text => exact congrArg Except.ok (push_unplaced _ (.text text))
    | _ => rfl
  | opened pos =>
    cases token with
    | keyword k => exact stepKeyword_unplaced _ pos k
    | _ => exact beginPipeline_unplaced defined _ .output _
  | afterElse pos =>
    have hclose := stepClosing_unplaced ⟨nodes, opened, defines, .afterElse pos⟩ pos .elseClause
      ⟨token, place⟩
    cases token with
    | keyword k =>
      cases k with
      | ifWord => exact congrArg Except.ok (awaitPipeline_unplaced _ (.elseIf pos))
      | _ => exact hclose
    | _ => exact hclose
  | closing pos what => exact stepClosing_unplaced _ pos what _
  | namingDefine =>
    cases token <;> rfl
  | naming kind pos =>
    cases token <;> rfl
  | named kind pos name =>
    cases token with
    | actionEnd => exact congrArg Except.ok (finishNamed_unplaced _ kind pos name none)
    | _ => exact beginPipeline_unplaced defined _ (.named kind pos name) _
  | pipeline purpose outer inner => exact stepPipeline_unplaced defined _ purpose outer inner _

end State

/-! ## Runs -/

theorem run_unplaced (defined : String → Bool) (s : State) (ts : List PlacedToken) :
    run defined s.unplaced (ts.map PlacedToken.unplaced)
      = unplacedOutcome State.unplaced (run defined s ts) := by
  induction ts generalizing s with
  | nil => rfl
  | cons t ts ih =>
    unfold run at ih ⊢
    rw [List.map_cons, List.foldlM_cons, List.foldlM_cons]
    exact unplacedOutcome_bind (State.step_unplaced defined s t) ih

theorem run_unplaced_eq_ok_iff {defined : String → Bool} {s t : State} {ts : List PlacedToken} :
    run defined s.unplaced (ts.map PlacedToken.unplaced) = .ok t
      ↔ ∃ s', run defined s ts = .ok s' ∧ s'.unplaced = t := by
  rw [run_unplaced]
  cases run defined s ts with
  | error e => simp [unplacedOutcome]
  | ok s' => simp [unplacedOutcome]

end Parser

/-- The parsed source with all positions forgotten. -/
def ParsedSource.unplaced (p : ParsedSource) : ParsedSource :=
  ⟨p.main.unplaced, p.defines.map Tree.unplaced⟩

namespace Parser

/-- **Parsing does not depend on positions.** What a source amounts to, up to positions, is what its
tokens without their places make of a parser. -/
theorem exists_parse_iff_run_unplaced {defined : String → Bool} {name source : String}
    {nodes : List Node} {ds : List Tree} :
    (∃ parsed, parse defined name source = .ok parsed ∧ parsed.unplaced = ⟨⟨name, nodes⟩, ds⟩)
      ↔ ∃ tokens, tokensOf source = .ok tokens ∧
        run defined .initial (tokens.map PlacedToken.unplaced) = .ok ⟨nodes, [], ds, .outside⟩ := by
  have hinitial : State.unplaced .initial = .initial := rfl
  constructor
  · rintro ⟨parsed, hparse, hunplaced⟩
    obtain ⟨tokens, s, htokens, hrun, hmode, hopened, rfl⟩ := parse_eq_ok hparse
    refine ⟨tokens, htokens, ?_⟩
    rw [← hinitial, run_unplaced_eq_ok_iff]
    refine ⟨s, hrun, ?_⟩
    rw [ParsedSource.unplaced, Tree.unplaced_mk, ParsedSource.mk.injEq, Tree.mk.injEq] at hunplaced
    rw [State.unplaced, hmode, hopened, hunplaced.1.2, hunplaced.2]
    rfl
  · rintro ⟨tokens, htokens, hrun⟩
    rw [← hinitial, run_unplaced_eq_ok_iff] at hrun
    obtain ⟨⟨before, opened, defines, mode⟩, hrun, hs⟩ := hrun
    obtain ⟨hnodes, hopened, hdefines, hmode⟩ := State.mk.inj hs
    obtain rfl := List.map_eq_nil_iff.1 hopened
    obtain rfl := Mode.eq_outside_of_unplaced hmode
    have hparse : parse defined name source = .ok ⟨⟨name, before⟩, defines⟩ := by
      rw [parse_eq_ok_iff_tokens]
      refine ⟨tokens, htokens, ?_⟩
      unfold parseTokens
      rw [hrun]
      rfl
    refine ⟨_, hparse, ?_⟩
    rw [ParsedSource.unplaced, Tree.unplaced_mk, hnodes, hdefines]

end Parser

end Stencil
