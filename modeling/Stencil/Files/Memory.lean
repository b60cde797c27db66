/-
Sources kept in memory.

Directories need no making: adding a file adds every directory on its way. Removing a file leaves
them. Files and directories are kept apart, so the same name may be taken by one of each; then the
file is what stands there, and a listing has the file before the directory.
-/
import Stencil.Files.Source
import Stencil.Table

set_option autoImplicit false

namespace Stencil

/-- A tree of files in memory. -/
structure Memory where
  files : Table Location String
  directories : Table Location Unit

namespace Memory

/-- Nothing but the root. -/
def empty : Memory := ⟨Table.empty, Table.empty⟩

instance : Inhabited Memory := ⟨empty⟩

/-! ## Changes -/

/-- The locations that a location passes on its way from `above`, itself included. -/
def steps (above : Location) : Location → List Location
  | [] => []
  | name :: rest => (above ++ [name]) :: steps (above ++ [name]) rest

/-- The tree with a directory at `l` and with all directories on the way. -/
def addLocation (m : Memory) (l : Location) : Memory :=
  { m with directories := (steps [] l).foldl (fun ds d => ds.insert d ()) m.directories }

/-- The tree with a directory at a path, unless the path leads outside. -/
def addDirectory (m : Memory) (p : Path) : Memory :=
  match p.location? with
  | some l => m.addLocation l
  | none => m

/-- The tree with a file at a path, unless the path leads outside. -/
def addFile (m : Memory) (p : Path) (text : String) : Memory :=
  match p.location? with
  | some l =>
    -- The root needs no directory above it.
    let made := m.addLocation l.dropLast
    { made with files := made.files.insert l text }
  | none => m

/-- The tree without the file at a path. -/
def removeFile (m : Memory) (p : Path) : Memory :=
  match p.location? with
  | some l => { m with files := m.files.erase l }
  | none => m

/-- Whether there is a file at a path. -/
def hasFile (m : Memory) (p : Path) : Bool :=
  match p.location? with
  | some l => m.files.contains l
  | none => false

/-- The tree of the given files. -/
def ofFiles (files : List (Path × String)) : Memory :=
  files.foldl (fun m f => m.addFile f.1 f.2) empty

/-! ## Questions -/

/-- Whether there is a directory at a location. The root always is one. -/
def isDirectory (m : Memory) (l : Location) : Bool := l.isEmpty || m.directories.contains l

/-- What stands at a path. -/
def metadata (m : Memory) (p : Path) : Except FileError EntryKind := do
  let l ← p.location
  if m.files.contains l then .ok .file
  else if m.isDirectory l then .ok .directory
  else .error (.notFound p)

/-- What a file says. -/
def read (m : Memory) (p : Path) : Except FileError String := do
  let l ← p.location
  match m.files.get? l with
  | some text => .ok text
  | none => .error (.notFound p)

/-- The locations directly below `dir` among the given ones. -/
def children (dir : Location) (ls : List Location) : List Location :=
  ls.filter fun l => l.parent? == some dir

/-- Entries of directly neighbouring names, merged by name; of two with the same name the one from
the first list comes first. -/
def mergeByName : List Entry → List Entry → List Entry
  | as, bs => as.merge bs fun a b => !SortKey.before b.fileName a.fileName

/-- What the directory at a location holds, sorted by name. -/
def entriesAt (m : Memory) (dir : Location) : List Entry :=
  mergeByName ((children dir m.files.keys).map fun l => ⟨l, .file⟩)
    ((children dir m.directories.keys).map fun l => ⟨l, .directory⟩)

/-- What a directory holds. -/
def list (m : Memory) (p : Path) : Except FileError (List Entry) := do
  let l ← p.location
  if m.isDirectory l then .ok (m.entriesAt l) else .error (.notFound p)

/-- More than the number of names on the way to any directory. -/
def levels (m : Memory) : Nat :=
  m.directories.keys.foldl (fun n l => max n (l.length + 1)) 1

/-- All that is below a directory. -/
def walk (m : Memory) (p : Path) : Except FileError (List Entry) := Source.walkBy m.list m.levels p

/-- The tree as a source. -/
def source (m : Memory) : Source where
  metadata := m.metadata
  list := m.list
  read := m.read
  walk := m.walk
  reportsWalks := false

end Memory

end Stencil
