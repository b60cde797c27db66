/-
Why a site cannot be loaded.

Loading stops at the first file or directory that is needed and is no good. The failure names the
source and the path, and says what was wrong with it.
-/
import Stencil.Site.SourceId
import Stencil.Template.Error

set_option autoImplicit false

namespace Stencil

/-- What is wrong with a file or directory of a source. -/
inductive LoadCause where
  /-- It is there but cannot be looked at. -/
  | access (error : FileError)
  | parse (error : TemplateError)
  /-- A page for which no identifier is left. -/
  | unnamedPage

/-- A failure to load a source. -/
structure LoadError where
  source : SourceId
  path : Path
  cause : LoadCause

/-- The message of a failure. -/
def LoadError.message (e : LoadError) : String :=
  "source " ++ e.source.text ++ ": " ++
    match e.cause with
    | .access error => "cannot access " ++ e.path.text ++ ": " ++ error.message
    | .parse error => error.message
    | .unnamedPage => "cannot derive a page identifier from " ++ e.path.text

end Stencil
