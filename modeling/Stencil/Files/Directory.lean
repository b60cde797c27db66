/-
Sources kept in a directory of a disk.

Paths are taken relative to the directory and never lead out of it, except through links on the
disk, which are followed so that linked directories behave like any others. A walk is left to a
walker, whose paths are cut down to what is behind the root.
-/
import Stencil.Files.DepthFirst
import Stencil.Files.Source
import Stencil.Text.Quoted

set_option autoImplicit false

namespace Stencil

/-- A directory of a disk, as the root of a source. -/
structure Directory where
  root : Path
  deriving DecidableEq, Repr

namespace Directory

/-- A directory as it is shown to people. -/
def text (dir : Directory) : String :=
  "DirFs \x7b root: " ++ Text.quote dir.root.text ++ " \x7d"

/-- The path on the disk of a location in the source. -/
def fullPath (dir : Directory) (l : Location) : Path := dir.root.join l.path

/-- The location in the source of a path on the disk: what is left of the path behind the root. -/
def relative (dir : Directory) (full : Path) : Except FileError Location :=
  match dir.root.parts.isPrefixOf? full.parts with
  | some rest => .ok (rest.filterMap PathPart.name?)
  | none => .error (.pathOutsideRoot full)

/-- The kind of something of a type. -/
def kindOf : FileType → EntryKind
  | .directory => .directory
  | _ => .file

/-- The answer to a question about the disk, a refusal being a failure at `p`. -/
def answer {α : Type} (p : Path) (r : Except IoCause α) : Except FileError α :=
  r.mapError (FileError.ofCause p)

/-- What stands at a path. -/
def metadata (dir : Directory) (d : Disk) (p : Path) : Except FileError EntryKind := do
  let l ← p.location
  let (_, node) ← answer p (d.lookUp (dir.fullPath l) true)
  .ok (kindOf node.fileType)

/-- What a file says. -/
def read (dir : Directory) (d : Disk) (p : Path) : Except FileError String := do
  let l ← p.location
  let content ← answer p (d.bytes (dir.fullPath l))
  match String.fromUTF8? content with
  | some text => .ok text
  | none => .error (.invalidUtf8 p)

/-- The entry for a name in the directory at `l`, links looked through. -/
def entryFor (dir : Directory) (d : Disk) (l : Location) (name : String) :
    Except FileError Entry := do
  let full := (dir.fullPath l).join ⟨name⟩
  let (_, node) ← answer full (d.lookUp full true)
  .ok ⟨l ++ [name], kindOf node.fileType⟩

/-- Entries sorted by name. -/
def sortByName (entries : List Entry) : List Entry :=
  entries.mergeSort fun a b => !SortKey.before b.fileName a.fileName

/-- What a directory holds, sorted by name. -/
def list (dir : Directory) (d : Disk) (p : Path) : Except FileError (List Entry) := do
  let l ← p.location
  let names ← answer p (d.names (dir.fullPath l))
  let entries ← names.mapM (dir.entryFor d l)
  .ok (sortByName entries)

/-! ## Walks -/

/-- How a directory is walked over: the start itself is no entry. -/
def walkOptions : WalkOptions where
  minDepth := 1
  followLinks := true
  sortByFileName := true

/-- The entry for what a walk from `start` has come upon. -/
def entryOf (dir : Directory) (start : Path) : WalkItem → Except FileError Entry
  | .error failure => .error (.ofCause (failure.path?.getD start) failure.cause)
  | .ok found => do
    let l ← dir.relative found.path
    .ok ⟨l, kindOf found.fileType⟩

/-- All that is below a path. -/
def walk (dir : Directory) (walker : Walker) (d : Disk) (p : Path) :
    Except FileError (List Entry) := do
  let l ← p.location
  let start := dir.fullPath l
  (walker walkOptions d start).mapM (dir.entryOf start)

/-- The directory as a source, on the disk as it is. -/
def source (dir : Directory) (d : Disk) (walker : Walker := .depthFirst) : Source where
  metadata := dir.metadata d
  list := dir.list d
  read := dir.read d
  walk := dir.walk walker d
  reportsWalks := true

end Directory

end Stencil
