/-
Walks over a disk.

How a disk is walked over is not settled here: a source is given a walker. It is asked with options
and a place to start, and yields what it comes upon, one thing after the other, a failure where it
cannot go on.
-/
import Stencil.Files.Disk

set_option autoImplicit false

namespace Stencil

/-- The options of a walk. -/
structure WalkOptions where
  /-- How many names at least lead from the start to what is yielded. -/
  minDepth : Nat
  /-- Whether links are looked through. -/
  followLinks : Bool
  /-- Whether the names in a directory are taken in their order. -/
  sortByFileName : Bool
  deriving DecidableEq, Repr

/-- Something that a walk comes upon. -/
structure WalkEntry where
  path : Path
  fileType : FileType
  deriving DecidableEq, Repr

/-- A place where a walk cannot go on. -/
structure WalkFailure where
  path? : Option Path
  cause : IoCause
  deriving DecidableEq, Repr

/-- What a walk yields. -/
abbrev WalkItem := Except WalkFailure WalkEntry

/-- A walker: what it yields on a disk from a path on. -/
abbrev Walker := WalkOptions → Disk → Path → List WalkItem

end Stencil
