/-
Sources some of whose calls fail.

A site has to cope with files that cannot be looked at, and a source in memory never refuses. So
faults can be laid over it: from then on a call at the path of a fault fails as the fault says.
Walks list one directory after the other, so they meet the faults of listings.
-/
import Stencil.Files.Memory

set_option autoImplicit false

namespace Stencil

/-- The calls that can be made to fail. -/
inductive FaultyCall where
  | metadata
  | list
  | read
  deriving DecidableEq, Repr

/-- A call that fails at a path. -/
structure Fault where
  call : FaultyCall
  path : Path
  error : FileError

namespace Memory

/-- The failure of a call at a path, the latest fault counting. -/
def faultAt? (faults : List Fault) (call : FaultyCall) (p : Path) : Option FileError :=
  (faults.reverse.find? fun f => f.call = call && f.path.parts = p.parts).map Fault.error

/-- The answer of a call, unless a fault stands in its way. -/
def unlessFaulty {α : Type} (faults : List Fault) (call : FaultyCall)
    (answer : Path → Except FileError α) (p : Path) : Except FileError α :=
  match faultAt? faults call p with
  | some e => .error e
  | none => answer p

/-- The tree as a source with faults. -/
def sourceWith (m : Memory) (faults : List Fault) : Source where
  metadata := unlessFaulty faults .metadata m.metadata
  list := unlessFaulty faults .list m.list
  read := unlessFaulty faults .read m.read
  walk := Source.walkBy (unlessFaulty faults .list m.list) m.levels
  reportsWalks := false

end Memory

end Stencil
