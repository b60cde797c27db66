/-
Content sources.

A source is a tree of files that can be asked four things: what stands at a path, what a directory
holds, what a file says, and what there is below a directory. Whatever answers these questions is a
source, so sites read memory and disks alike and know neither.
-/
import Stencil.Files.Error

set_option autoImplicit false

namespace Stencil

/-- What stands at a location. -/
inductive EntryKind where
  | file
  | directory
  deriving DecidableEq, Repr

/-- Something in a listing, by its location in the source. -/
structure Entry where
  location : Location
  kind : EntryKind
  deriving DecidableEq, Repr

namespace Entry

/-- The last name of an entry's location. -/
def fileName (e : Entry) : String := e.location.fileName

/-- The path of an entry. -/
def path (e : Entry) : Path := e.location.path

end Entry

/-- A source of files. Listings are sorted by name; a walk lists all that is below a directory, each
directory before what it holds. -/
structure Source where
  metadata : Path → Except FileError EntryKind
  list : Path → Except FileError (List Entry)
  read : Path → Except FileError String
  walk : Path → Except FileError (List Entry)
  /-- Whether finished walks are worth a line in the log. -/
  reportsWalks : Bool

namespace Source

/-- Whether something stands at a path. What cannot be looked at is a failure, not an absence. -/
def contains (s : Source) (p : Path) : Except FileError Bool :=
  match s.metadata p with
  | .ok _ => .ok true
  | .error e => if e.isNotFound then .ok false else .error e

/-- The entries in order, each directory with what `below` finds under it behind it. -/
def expand (below : Path → Except FileError (List Entry)) :
    List Entry → Except FileError (List Entry)
  | [] => .ok []
  | e :: rest => do
    let inner ← if e.kind = .directory then below e.path else .ok []
    let others ← expand below rest
    .ok (e :: inner ++ others)

/-- All that is below a path, found by listing one directory after the other, at most `levels` of
them inside each other. -/
def walkBy (list : Path → Except FileError (List Entry)) :
    (levels : Nat) → Path → Except FileError (List Entry)
  | 0, _ => .ok []
  | levels + 1, p => do
    let entries ← list p
    expand (walkBy list levels) entries

end Source

end Stencil
