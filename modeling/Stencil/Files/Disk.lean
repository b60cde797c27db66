/-
A disk: files, directories and symbolic links.

The disk is data, a table from locations to what stands there, and looking something up follows
links the way a system does: part by part from the top, a link being replaced by the parts of its
target. A location that has been reached holds no link on its way, so a step upwards is taken from
where the walk really is and not from how it was written.

How many links one look-up may pass is bounded, which is also why it ends: between two links the
parts that are left become fewer, and a link is paid for.

In which order a directory lists its names is up to the disk.
-/
import Stencil.Files.Error
import Stencil.Table

set_option autoImplicit false

namespace Stencil

/-- What stands at a location of a disk. -/
inductive DiskNode where
  | file (content : ByteArray)
  | directory
  | link (target : Path)

/-- What kind of thing stands at a location of a disk. -/
inductive FileType where
  | file
  | directory
  | link
  deriving DecidableEq, Repr

/-- The type of what stands at a location. -/
def DiskNode.fileType : DiskNode → FileType
  | .file _ => .file
  | .directory => .directory
  | .link _ => .link

/-- A disk. Its top is a directory that has no entry of its own. -/
structure Disk where
  nodes : Table Location DiskNode
  /-- The names in the directory at a location, in the order in which they are listed. -/
  arrange : Location → List String → List String
  /-- A listing has every name once. -/
  arrange_perm : ∀ l names, (arrange l names).Perm names

namespace Disk

/-- A disk with nothing on it. It lists names as they are sorted. -/
def empty : Disk := ⟨Table.empty, fun _ names => names, fun _ names => .refl names⟩

instance : Inhabited Disk := ⟨empty⟩

/-- What stands at a location. -/
def node? (d : Disk) (l : Location) : Option DiskNode :=
  if l.isEmpty then some .directory else d.nodes.get? l

/-! ## Following a path -/

/-- How far parts lead without passing a link. -/
inductive Reached where
  | location (l : Location)
  /-- A link in the directory `within`, and the parts behind it. -/
  | link (within : Location) (target : Path) (rest : List PathPart)

/-- The most bytes that a name may have. -/
def nameLimit : Nat := 255

/-- Whether a path ends in a slash or in a `.` behind one, so that only a directory can be meant. -/
def meansDirectory (p : Path) : Bool := p.pieces.getLast?.any Path.isIdle

/-- The steps by which a path is followed. One that stays where it is ends a path that can only mean
a directory, because nothing but a directory can be stepped in. -/
def steps (p : Path) : List PathPart :=
  if meansDirectory p then p.parts ++ [.current] else p.parts

/-- Follows parts from the directory `here` up to the first link, which is passed over only where
`followLast` allows it or parts come behind it. -/
def advance (d : Disk) (followLast : Bool) (here : Location) :
    List PathPart → Except IoCause Reached
  | [] => .ok (.location here)
  | part :: rest =>
    -- Whatever follows, it can only be looked for in a directory.
    match d.node? here with
    | some .directory =>
      match part with
      | .root => d.advance followLast [] rest
      | .current => d.advance followLast here rest
      | .parent => d.advance followLast here.dropLast rest
      | .name s =>
        if nameLimit < s.utf8ByteSize then .error .nameTooLong
        else
          match d.node? (here ++ [s]) with
          | none => .error .missing
          | some (.link target) =>
            if rest.isEmpty && !followLast then .ok (.location (here ++ [s]))
            else .ok (.link here target rest)
          | some _ => d.advance followLast (here ++ [s]) rest
    | _ => .error .notADirectory

/-- Follows parts from the directory `here`, passing at most `links` links. -/
def follow (d : Disk) (followLast : Bool) : (links : Nat) → (here : Location) → List PathPart →
    Except IoCause Location
  | links, here, parts =>
    match d.advance followLast here parts with
    | .error cause => .error cause
    | .ok (.location l) => .ok l
    | .ok (.link within target rest) =>
      -- The target is read from where the link stands.
      match links with
      | 0 => .error .tooManyLinks
      | more + 1 => d.follow followLast more within (steps target ++ rest)

/-- How many links one look-up may pass. -/
def linkLimit : Nat := 40

/-- The location that a path leads to. A link at its end is looked through on request; otherwise the
link itself is meant. The empty path leads nowhere. -/
def locate (d : Disk) (p : Path) (followLast : Bool) : Except IoCause Location :=
  if p.text.isEmpty then .error .missing
  else if p.text.toList.contains '\x00' then .error .nulInName
  else d.follow followLast linkLimit [] (steps p)

/-! ## Questions -/

/-- What stands at a path, with links looked through on request. -/
def lookUp (d : Disk) (p : Path) (followLast : Bool) : Except IoCause (Location × DiskNode) := do
  let l ← d.locate p followLast
  match d.node? l with
  | some node => .ok (l, node)
  | none => .error .missing

/-- The bytes of the file at a path. -/
def bytes (d : Disk) (p : Path) : Except IoCause ByteArray := do
  match (← d.lookUp p true).2 with
  | .file content => .ok content
  | _ => .error .isADirectory

/-- The text of the file at a path. -/
def text (d : Disk) (p : Path) : Except IoCause String := do
  match String.fromUTF8? (← d.bytes p) with
  | some text => .ok text
  | none => .error .notUtf8

/-- The names in the directory at a location, sorted. -/
def namesAt (d : Disk) (l : Location) : List String :=
  (d.nodes.keys.filter fun k => k.parent? == some l).map Location.fileName

/-- The names in the directory at a path, as the disk lists them. -/
def names (d : Disk) (p : Path) : Except IoCause (List String) := do
  let (l, node) ← d.lookUp p true
  match node with
  | .directory => .ok (d.arrange l (d.namesAt l))
  | _ => .error .notADirectory

/-! ## Changes -/

/-- The disk with something else at a location. -/
def set (d : Disk) (l : Location) (node : DiskNode) : Disk :=
  { d with nodes := d.nodes.insert l node }

/-- Makes the directories that parts pass from the directory `here`, as far as they are missing, and
says where the last one is. -/
def makeDirectories (d : Disk) (here : Location) : List PathPart → Except IoCause (Disk × Location)
  | [] => .ok (d, here)
  | part :: rest =>
    match d.follow true linkLimit here [part] with
    | .ok l => d.makeDirectories l rest
    | .error cause =>
      match part, d.node? (here ++ [part.name?.getD ""]) with
      | .name s, none =>
        if cause = .missing then
          (d.set (here ++ [s]) .directory).makeDirectories (here ++ [s]) rest
        else .error cause
      | _, _ => .error cause

/-- The disk with a directory at a path and all on the way to it. -/
def putDirectory (d : Disk) (p : Path) : Except IoCause Disk := do
  let (made, l) ← d.makeDirectories [] p.parts
  match made.node? l with
  | some .directory => .ok made
  | _ => .error .notADirectory

/-- The disk with a directory for everything on the way to a path, and where the path would put
something: the directory and the name in it. -/
def makeRoom (d : Disk) (p : Path) : Except IoCause (Disk × Location × String) := do
  match p.fileName? with
  | none => .error .isADirectory
  | some name => do
    let (made, l) ← d.makeDirectories [] p.parts.dropLast
    match made.node? l with
    | some .directory => .ok (made, l, name)
    | _ => .error .notADirectory

/-- The disk with a file under a name in the directory `dir`. Where a link stands, its target is
written, at most `links` times in a row. -/
def write (d : Disk) (content : ByteArray) : (links : Nat) → (dir : Location) → (name : String) →
    Except IoCause Disk
  | links, dir, name =>
    match d.node? (dir ++ [name]) with
    | some .directory => .error .isADirectory
    | some (.link target) =>
      match links, if meansDirectory target then none else target.fileName? with
      | 0, _ => .error .tooManyLinks
      | _, none => .error .isADirectory
      | more + 1, some last => do
        -- The target itself may be missing, but not the directory in which it would be.
        let next ← d.follow true linkLimit dir target.parts.dropLast
        match d.node? next with
        | some .directory => d.write content more next last
        | _ => .error .notADirectory
    | _ => .ok (d.set (dir ++ [name]) (.file content))

/-- The disk with a file at a path. -/
def putFile (d : Disk) (p : Path) (content : ByteArray) : Except IoCause Disk := do
  let (made, dir, name) ← d.makeRoom p
  made.write content linkLimit dir name

/-- The disk with a link at a path. A file or link that stands there is replaced. -/
def putLink (d : Disk) (p target : Path) : Except IoCause Disk := do
  let (made, dir, name) ← d.makeRoom p
  match made.node? (dir ++ [name]) with
  | some .directory => .error .isADirectory
  | _ => .ok (made.set (dir ++ [name]) (.link target))

/-- The disk without the file or link at a path. Directories stay. -/
def removeFile (d : Disk) (p : Path) : Except IoCause Disk := do
  let (l, node) ← d.lookUp p false
  match node with
  | .directory => .error .isADirectory
  | _ => .ok { d with nodes := d.nodes.erase l }

end Disk

end Stencil
