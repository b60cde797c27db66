/-
Failures of content sources.

A path that leads nowhere is a case of its own, because callers often go on without what is missing.
Every other failure of the system below is kept with its cause and the path at which it arose.
-/
import Stencil.Files.Path
import Stencil.Decimal.Integer

set_option autoImplicit false

namespace Stencil

/-- Why the system refused an operation. -/
inductive IoCause where
  | missing
  | notADirectory
  | isADirectory
  | nameTooLong
  | tooManyLinks
  | nulInName
  | notUtf8
  | permissionDenied
  | timedOut
  /-- A link to a directory leads to one of those above it. -/
  | linkLoop (link ancestor : Path)
  /-- A cause met at a path in the course of a walk. -/
  | during (path : Path) (cause : IoCause)
  deriving DecidableEq, Repr

namespace IoCause

/-- The message of a failure with a number of the system. -/
def numbered (text : String) (code : Nat) : String :=
  text ++ " (os error " ++ Decimal.integer code ++ ")"

/-- The message of a cause. -/
def message : IoCause → String
  | .missing => numbered "No such file or directory" 2
  | .notADirectory => numbered "Not a directory" 20
  | .isADirectory => numbered "Is a directory" 21
  | .nameTooLong => numbered "File name too long" 36
  | .tooManyLinks => numbered "Too many levels of symbolic links" 40
  | .nulInName => "file name contained an unexpected NUL byte"
  | .notUtf8 => "stream did not contain valid UTF-8"
  | .permissionDenied => "permission denied"
  | .timedOut => "timed out"
  | .linkLoop link ancestor =>
    "File system loop found: " ++ link.text ++ " points to an ancestor " ++ ancestor.text
  | .during path cause => "IO error for operation on " ++ path.text ++ ": " ++ cause.message

/-- Whether a cause only says that something is missing. -/
def isMissing : IoCause → Bool
  | .missing => true
  | .during _ cause => cause.isMissing
  | _ => false

end IoCause

/-- Why a content source has no answer. -/
inductive FileError where
  | notFound (path : Path)
  | io (path : Path) (cause : IoCause)
  | invalidUtf8 (path : Path)
  /-- The path might lead out of the source. -/
  | pathOutsideRoot (path : Path)
  deriving DecidableEq, Repr

namespace FileError

/-- The failure at a path for a cause of the system. -/
def ofCause (path : Path) (cause : IoCause) : FileError :=
  if cause.isMissing then .notFound path else .io path cause

/-- The message of a failure. -/
def message : FileError → String
  | .notFound path => "Path not found: " ++ path.text
  | .io path cause => "I/O error at " ++ path.text ++ ": " ++ cause.message
  | .invalidUtf8 path => "Invalid UTF-8 in file: " ++ path.text
  | .pathOutsideRoot path => "Path outside content root: " ++ path.text

/-- Whether a failure only says that the path is missing. -/
def isNotFound : FileError → Bool
  | .notFound _ => true
  | _ => false

end FileError

/-- The location that a path leads to within a source. -/
def Path.location (p : Path) : Except FileError Location :=
  match p.location? with
  | some l => .ok l
  | none => .error (.pathOutsideRoot p)

end Stencil
