/-
From tokens to trees.

The parser is a machine that takes one token at a time. Its state has the nodes of the list being
read, a stack with one frame for every construct that is open, the definitions found so far, and
where in an action it stands. A source is parsed by folding the step over its tokens and asking
whether nothing is left open, so parsing a concatenation is parsing on from the state reached, and a
construct that prints as given tokens is read by running over exactly these.
-/
import Stencil.Template.PipelineReader
import Stencil.Template.Tokens

set_option autoImplicit false

namespace Stencil

/-- The templates that one source defines: its own content and its definitions, each name once, in
the order of their first appearance. -/
structure ParsedSource where
  main : Tree
  defines : List Tree

namespace Parser

/-! ## States -/

/-- A construct whose body is being read. -/
inductive Frame where
  /-- The body of a guarded branch, behind the branches that are done. -/
  | branch (pos : Position) (done : List Branch) (condition : Pipeline)
  | elseOfBranches (pos : Position) (branches : List Branch)
  | rebind (kind : Rebinding) (pos : Position) (pipeline : Pipeline)
  | elseOfRebind (kind : Rebinding) (pos : Position) (pipeline : Pipeline) (body : List Node)
  | define (pos : Position) (name : String)
  | block (pos : Position) (name : String) (pipeline : Option Pipeline)

/-- The construct that a frame belongs to. -/
def Frame.construct : Frame → Construct
  | .branch _ _ _ => .ifClause
  | .elseOfBranches _ _ => .ifClause
  | .rebind kind _ _ => .rebind kind
  | .elseOfRebind kind _ _ _ => .rebind kind
  | .define _ _ => .define
  | .block _ _ _ => .block

/-- The place that a message about a missing end names: where the construct began, if its first body
is still open, and otherwise the last token. -/
def Frame.eofPosition (last : Position) : Frame → Position
  | .branch pos _ _ => pos
  | .rebind _ pos _ => pos
  | _ => last

/-- A call of a template and a block are written alike: a name and perhaps a pipeline. -/
inductive Named where
  | call
  | block
  deriving DecidableEq

/-- The construct of a named action. -/
def Named.construct : Named → Construct
  | .call => .template
  | .block => .block

/-- What a pipeline is read for. -/
inductive Purpose where
  | output
  | condition (pos : Position)
  | elseIf (pos : Position)
  | rebind (kind : Rebinding) (pos : Position)
  | named (kind : Named) (pos : Position) (name : String)

/-- The construct that messages about a pipeline mention. -/
def Purpose.construct : Purpose → Construct
  | .output => .command
  | .condition _ => .ifClause
  | .elseIf _ => .elseIf
  | .rebind kind _ => .rebind kind
  | .named kind _ _ => kind.construct

/-- What an action that only needs its closing delimiter does. -/
inductive Closing where
  | endClause
  | elseClause
  | define (pos : Position) (name : String)

/-- The construct of an action that waits for its closing delimiter. -/
def Closing.construct : Closing → Construct
  | .endClause => .endClause
  | .elseClause => .elseClause
  | .define _ _ => .define

/-- Where the parser stands. The position is that of the action's opening delimiter. -/
inductive Mode where
  | outside
  | opened (pos : Position)
  | afterElse (pos : Position)
  | closing (pos : Position) (what : Closing)
  | namingDefine
  | naming (kind : Named) (pos : Position)
  | named (kind : Named) (pos : Position) (name : String)
  | pipeline (purpose : Purpose) (outer : List Level) (inner : Level)

/-- The construct that a message about the end of the source mentions inside an action. -/
def Mode.construct? : Mode → Option Construct
  | .outside => none
  | .opened _ => some .action
  | .afterElse _ => some .elseClause
  | .closing _ what => some what.construct
  | .namingDefine => some .define
  | .naming kind _ => some kind.construct
  | .named kind _ _ => some kind.construct
  | .pipeline _ _ inner => some inner.construct

/-- A frame and the nodes that stand before its construct. -/
structure Opened where
  frame : Frame
  before : List Node

/-- What the tokens read so far amount to. -/
structure State where
  nodes : List Node
  opened : List Opened
  defines : List Tree
  mode : Mode

/-- The state before the first token. -/
def State.initial : State := ⟨[], [], [], .outside⟩

/-! ## Definitions -/

/-- The definitions with one more, found at `pos`. A name may be defined several times as long as at
most one of its templates has content; that one is kept, in the place of the first. -/
def addDefine (tree : Tree) (pos : Position) : List Tree → Except ParseError (List Tree)
  | [] => .ok [tree]
  | t :: rest =>
    if t.name = tree.name then
      if tree.isEmpty then .ok (t :: rest)
      else if t.isEmpty then .ok (tree :: rest)
      else .error ⟨.definedTwice tree.name, pos⟩
    else do
      let added ← addDefine tree pos rest
      .ok (t :: added)

namespace State

/-! ## Actions that are complete -/

/-- The state behind an action, with another node in the current list. -/
def push (s : State) (n : Node) : State := { s with nodes := s.nodes ++ [n], mode := .outside }

/-- The state at the start of the body of a new construct. -/
def enter (s : State) (frame : Frame) : State :=
  { s with nodes := [], opened := ⟨frame, s.nodes⟩ :: s.opened, mode := .outside }

/-- The state at the start of a further body of the construct whose body has been read. -/
def switch (s : State) (frame : Frame) (before : List Node) (outer : List Opened) : State :=
  { s with nodes := [], opened := ⟨frame, before⟩ :: outer, mode := .outside }

/-- The state behind a construct whose last body has been read. -/
def leave (s : State) (before : List Node) (outer : List Opened) : State :=
  { s with nodes := before, opened := outer, mode := .outside }

/-- The state behind a definition or block whose body has been read. -/
def define (s : State) (pos : Position) (name : String) : Except ParseError State := do
  let defines ← addDefine ⟨name, s.nodes⟩ pos s.defines
  .ok { s with defines }

/-- An action that ends the innermost open construct. -/
def endClause (s : State) (pos : Position) : Except ParseError State :=
  match s.opened with
  | [] => .error ⟨.strayEnd, pos⟩
  | ⟨frame, before⟩ :: outer =>
    match frame with
    | .branch start done condition =>
      .ok ((s.leave before outer).push
        (.conditional start (done ++ [⟨condition, s.nodes⟩]) none))
    | .elseOfBranches start branches =>
      .ok ((s.leave before outer).push (.conditional start branches (some s.nodes)))
    | .rebind kind start pipeline =>
      .ok ((s.leave before outer).push (.rebind kind start pipeline s.nodes none))
    | .elseOfRebind kind start pipeline body =>
      .ok ((s.leave before outer).push (.rebind kind start pipeline body (some s.nodes)))
    -- A definition leaves no node in the list that it interrupts; a block leaves a call.
    | .define start name => do
      let defined ← s.define start name
      .ok (defined.leave before outer)
    | .block start name pipeline => do
      let defined ← s.define start name
      .ok ((defined.leave before outer).push (.call start name pipeline))

/-- An action that begins the last alternative of the innermost open construct. -/
def elseClause (s : State) (pos : Position) : Except ParseError State :=
  match s.opened with
  | [] => .error ⟨.strayElse, pos⟩
  | ⟨frame, before⟩ :: outer =>
    match frame with
    | .branch start done condition =>
      .ok (s.switch (.elseOfBranches start (done ++ [⟨condition, s.nodes⟩])) before outer)
    | .rebind kind start pipeline =>
      .ok (s.switch (.elseOfRebind kind start pipeline s.nodes) before outer)
    | _ => .error ⟨.elseNotAllowed frame.construct, pos⟩

/-- An action that begins a further guarded branch. -/
def elseIf (s : State) (pos : Position) (condition : Pipeline) : Except ParseError State :=
  match s.opened with
  | [] => .error ⟨.strayElse, pos⟩
  | ⟨frame, before⟩ :: outer =>
    match frame with
    | .branch start done guard =>
      .ok (s.switch (.branch start (done ++ [⟨guard, s.nodes⟩]) condition) before outer)
    | .rebind kind _ _ => .error ⟨.elseIfNotAllowed (.rebind kind), pos⟩
    | _ => .error ⟨.elseNotAllowed frame.construct, pos⟩

/-- A call or a block whose header has been read. -/
def finishNamed (s : State) (kind : Named) (pos : Position) (name : String)
    (pipeline : Option Pipeline) : State :=
  match kind with
  | .call => s.push (.call pos name pipeline)
  | .block => s.enter (.block pos name pipeline)

/-- An action whose pipeline has been read. -/
def finishPipeline (s : State) (p : Pipeline) : Purpose → Except ParseError State
  | .output => .ok (s.push (.action p))
  | .condition pos => .ok (s.enter (.branch pos [] p))
  | .elseIf pos => s.elseIf pos p
  | .rebind kind pos => .ok (s.enter (.rebind kind pos p))
  | .named kind pos name => .ok (s.finishNamed kind pos name (some p))

/-- An action whose closing delimiter has been read. -/
def finishClosing (s : State) (pos : Position) : Closing → Except ParseError State
  | .endClause => s.endClause pos
  | .elseClause => s.elseClause pos
  | .define start name => .ok (s.enter (.define start name))

/-! ## Steps -/

/-- Reads one token into the pipelines that are open. -/
def stepPipeline (defined : String → Bool) (s : State) (purpose : Purpose) (outer : List Level)
    (inner : Level) (t : PlacedToken) : Except ParseError State := do
  match ← PipelineProgress.step defined outer inner t with
  | .reading outer inner => .ok { s with mode := .pipeline purpose outer inner }
  | .done p => s.finishPipeline p purpose

/-- Begins a pipeline with its first token. -/
def beginPipeline (defined : String → Bool) (s : State) (purpose : Purpose) (t : PlacedToken) :
    Except ParseError State :=
  s.stepPipeline defined purpose [] (Level.opened purpose.construct) t

/-- The state inside an action from where a pipeline is to be read. -/
def awaitPipeline (s : State) (purpose : Purpose) : State :=
  { s with mode := .pipeline purpose [] (Level.opened purpose.construct) }

/-- Reads the keyword with which the action at `pos` begins. -/
def stepKeyword (s : State) (pos : Position) : Keyword → Except ParseError State
  | .endWord => .ok { s with mode := .closing pos .endClause }
  | .elseWord => .ok { s with mode := .afterElse pos }
  | .ifWord => .ok (s.awaitPipeline (.condition pos))
  | .rangeWord => .ok (s.awaitPipeline (.rebind .range pos))
  | .withWord => .ok (s.awaitPipeline (.rebind .scoped pos))
  | .defineWord =>
    if s.opened.isEmpty then .ok { s with mode := .namingDefine }
    else .error ⟨.defineInside, pos⟩
  | .blockWord => .ok { s with mode := .naming .block pos }
  | .templateWord => .ok { s with mode := .naming .call pos }

/-- Reads the token that should close an action. -/
def stepClosing (s : State) (pos : Position) (what : Closing) (t : PlacedToken) :
    Except ParseError State :=
  match t.token with
  | .actionEnd => s.finishClosing pos what
  | token => .error ⟨.unexpectedToken token what.construct, t.pos⟩

/-- Reads one token. -/
def step (defined : String → Bool) (s : State) (t : PlacedToken) : Except ParseError State :=
  match s.mode with
  | .outside =>
    match t.token with
    | .text text => .ok (s.push (.text text))
    | .actionStart => .ok { s with mode := .opened t.pos }
    | token => .error ⟨.strayToken token, t.pos⟩
  | .opened pos =>
    match t.token with
    | .keyword k => s.stepKeyword pos k
    | _ => s.beginPipeline defined .output t
  | .afterElse pos =>
    match t.token with
    | .keyword .ifWord => .ok (s.awaitPipeline (.elseIf pos))
    | _ => s.stepClosing pos .elseClause t
  | .closing pos what => s.stepClosing pos what t
  | .namingDefine =>
    match t.token with
    | .string name => .ok { s with mode := .closing t.pos (.define t.pos name) }
    | token => .error ⟨.nameExpected .define token, t.pos⟩
  | .naming kind pos =>
    match t.token with
    | .string name => .ok { s with mode := .named kind pos name }
    | token => .error ⟨.nameExpected kind.construct token, t.pos⟩
  | .named kind pos name =>
    -- The pipeline may be missing, but not be empty once it has begun.
    match t.token with
    | .actionEnd => .ok (s.finishNamed kind pos name none)
    | _ => s.beginPipeline defined (.named kind pos name) t
  | .pipeline purpose outer inner => s.stepPipeline defined purpose outer inner t

/-- What the source amounts to if it ends here, `last` being the place of its last token. -/
def finish (s : State) (name : String) (last : Position) : Except ParseError ParsedSource :=
  match s.mode.construct? with
  | some construct => .error ⟨.unexpectedEof construct, last⟩
  | none =>
    match s.opened with
    | o :: _ => .error ⟨.unexpectedEof o.frame.construct, o.frame.eofPosition last⟩
    | [] => .ok ⟨⟨name, s.nodes⟩, s.defines⟩

end State

/-- Reads tokens one after the other. -/
def run (defined : String → Bool) (s : State) (tokens : List PlacedToken) :
    Except ParseError State :=
  tokens.foldlM (State.step defined) s

/-- The place of the last token, where the end of the tokens is reported. -/
def lastPosition (tokens : List PlacedToken) : Position :=
  (tokens.getLast?.map PlacedToken.pos).getD Position.nowhere

/-- The templates that a list of tokens defines. -/
def parseTokens (defined : String → Bool) (name : String) (tokens : List PlacedToken) :
    Except ParseError ParsedSource := do
  let s ← run defined State.initial tokens
  s.finish name (lastPosition tokens)

/-- There is nothing wrong with no tokens, so no failure is reported nowhere. -/
theorem parseTokens_nil (defined : String → Bool) (name : String) :
    parseTokens defined name [] = .ok ⟨⟨name, []⟩, []⟩ := rfl

/-- The templates that a source defines when it is parsed under a name. -/
def parse (defined : String → Bool) (name source : String) : Except ParseError ParsedSource :=
  match tokensOf source with
  | .error e => .error ⟨.lex e.cause, e.pos⟩
  | .ok tokens => parseTokens defined name tokens

end Parser

end Stencil
