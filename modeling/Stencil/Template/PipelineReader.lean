/-
Reading pipelines token by token.

A pipeline in parentheses may stand inside another, so the reader keeps a stack of open pipelines,
one level for each. Taking one token at a time makes reading a fold over the tokens: what has been
read is a state, and reading two stretches of tokens after each other is reading their
concatenation.
-/
import Stencil.Template.ParseError

set_option autoImplicit false

namespace Stencil

/-- A pipeline that is being read: the commands that are finished and the operands of the next one,
both in order. The two positions are unknown until a first token is met. -/
structure Level where
  construct : Construct
  start : Option Position
  commands : List Command
  commandStart : Option Position
  args : List Operand

namespace Level

/-- A pipeline of which nothing has been read. -/
def opened (construct : Construct) : Level := ⟨construct, none, [], none, []⟩

/-- Notes that a token at `pos` begins or continues a command. -/
def reach (l : Level) (pos : Position) : Level :=
  { l with start := some (l.start.getD pos), commandStart := some (l.commandStart.getD pos) }

/-- The level with another operand, which ends at `pos` or stands there. -/
def add (l : Level) (pos : Position) (operand : Operand) : Level :=
  { l.reach pos with args := l.args ++ [operand] }

/-- Ends the command being read because of the token at `pos`. A command has at least one operand. -/
def endCommand (l : Level) (pos : Position) : Except ParseError Level :=
  if l.args.isEmpty then .error ⟨.missingValue l.construct, l.commandStart.getD pos⟩
  else
    .ok { l with
      commands := l.commands ++ [⟨l.commandStart.getD pos, l.args⟩]
      commandStart := none
      args := [] }

/-- Ends the pipeline because of the token at `pos`. -/
def finish (l : Level) (pos : Position) : Except ParseError Pipeline := do
  let ended ← l.endCommand pos
  .ok ⟨ended.start.getD pos, ended.commands⟩

end Level

/-! ## Steps -/

/-- What a token makes of the pipelines that are open: they go on, or the outermost one is done. -/
inductive PipelineProgress where
  | reading (outer : List Level) (inner : Level)
  | done (p : Pipeline)

/-- The operand that a token is by itself. -/
def Token.operand? : Token → Option Operand
  | .dot => some .dot
  | .field path => some (.field path)
  | .variable path => some (.variable path)
  | .string s => some (.string s)
  | .int n => some (.int n)
  | .float x => some (.float x)
  | .bool b => some (.bool b)
  | .nil => some .nil
  | _ => none

/-- Reads one token into the innermost of the open pipelines. `defined` tells which functions there
are, since a call of any other is refused where it stands. -/
def PipelineProgress.step (defined : String → Bool) (outer : List Level) (inner : Level)
    (t : PlacedToken) : Except ParseError PipelineProgress :=
  match t.token with
  | .pipe => do
    let ended ← inner.endCommand t.pos
    .ok (.reading outer ended)
  -- The command is ended first, so an empty one is reported before a parenthesis left open.
  | .actionEnd => do
    let finished ← inner.finish t.pos
    match outer with
    | [] => .ok (.done finished)
    | _ :: _ => .error ⟨.unexpectedToken t.token inner.construct, t.pos⟩
  | .rightParen => do
    let finished ← inner.finish t.pos
    match outer with
    | [] => .error ⟨.unexpectedToken t.token inner.construct, t.pos⟩
    | next :: more => .ok (.reading more (next.add t.pos (.pipeline finished)))
  | .leftParen => .ok (.reading (inner.reach t.pos :: outer) (Level.opened .parentheses))
  | .ident name =>
    if defined name then .ok (.reading outer (inner.add t.pos (.function name)))
    else .error ⟨.undefinedFunction name, t.pos⟩
  | token =>
    match token.operand? with
    | some operand => .ok (.reading outer (inner.add t.pos operand))
    | none => .error ⟨.unexpectedToken token inner.construct, t.pos⟩

end Stencil
