/-
Walking depth first.

Each directory comes before what it holds, and what it holds comes before its next neighbour. A link
that is looked through must not lead to a directory that the walk is inside of: that would never end,
and is a failure. Behind a failure the walk goes on with the next name.
-/
import Stencil.Files.Walker

set_option autoImplicit false

namespace Stencil.Walker

/-- A directory that a walk is inside of: its full path, and where it is on the disk. -/
structure Ancestor where
  path : Path
  place : Location

/-- The answer to a question that came up at a full path. -/
def answerDuring {α : Type} (full : Path) (r : Except IoCause α) : Except WalkFailure α :=
  r.mapError fun cause => ⟨some full, .during full cause⟩

/-- What a link at a full path leads to. A directory must not be one that the walk is inside of. -/
def throughLink (d : Disk) (above : List Ancestor) (full : Path) :
    Except WalkFailure (Location × DiskNode) := do
  let (place, node) ← answerDuring full (d.lookUp full true)
  match node, above.find? (fun a => a.place == place) with
  -- The innermost of the directories is the one that the message names.
  | .directory, some a => .error ⟨some full, .linkLoop full a.path⟩
  | _, _ => .ok (place, node)

/-- What stands at a full path of a walk that is inside of the directories `above`, the innermost
first. -/
def found (d : Disk) (followLinks : Bool) (above : List Ancestor) (full : Path) :
    Except WalkFailure (Location × DiskNode) := do
  match ← answerDuring full (d.lookUp full false) with
  | (place, .link target) =>
    if followLinks then throughLink d above full else .ok (place, .link target)
  | plain => .ok plain

/-- What is yielded for a node itself. -/
def yielded (options : WalkOptions) (depth : Nat) (full : Path) (node : DiskNode) : List WalkItem :=
  if options.minDepth ≤ depth then [.ok ⟨full, node.fileType⟩] else []

/-- What is yielded for a full path: what stands there, and behind a directory what `below` finds in
it. -/
def visit (options : WalkOptions) (d : Disk) (depth : Nat) (above : List Ancestor)
    (below : Ancestor → List WalkItem) (full : Path) : List WalkItem :=
  match found d options.followLinks above full with
  | .error e => [.error e]
  | .ok (place, .directory) => yielded options depth full .directory ++ below ⟨full, place⟩
  | .ok (_, node) => yielded options depth full node

/-- Names in the order in which a walk takes them. -/
def ordered (options : WalkOptions) (names : List String) : List String :=
  if options.sortByFileName then names.mergeSort fun a b => !SortKey.before b a else names

/-- All that is below the directory `here`, which is inside of `above`, at most `levels` directories
inside each other. -/
def walkFrom (options : WalkOptions) (d : Disk) :
    (levels depth : Nat) → (above : List Ancestor) → (here : Ancestor) → List WalkItem
  | 0, _, _, _ => []
  | levels + 1, depth, above, here =>
    match answerDuring here.path (d.names here.path) with
    | .error e => [.error e]
    | .ok names =>
      (ordered options names).flatMap fun name =>
        visit options d (depth + 1) (here :: above)
          (walkFrom options d levels (depth + 1) (here :: above)) (here.path.join ⟨name⟩)

/-- More than the number of directories that can be inside each other on a walk: between two links
no more than there are things on the disk, and no link is followed to the same directory twice. -/
def walkLevels (d : Disk) : Nat := (d.nodes.size + 1) * (d.nodes.size + 1) + 1

/-- The walker that goes down before it goes on. -/
def depthFirst : Walker := fun options d start =>
  visit options d 0 [] (walkFrom options d (walkLevels d) 0 []) start

end Stencil.Walker
