/-
The identifiers of pages.

A page is identified by the way to its file below the directory of views, without the extension. Pages
of a named source carry the source's name and a colon in front.
-/
import Stencil.Site.Extension
import Stencil.Site.SourceId

set_option autoImplicit false

namespace Stencil.PageId

/-- The names that parts consist of, unless they lead upwards or start anew. -/
def names? : List PathPart → Option (List String)
  | [] => some []
  | .name s :: rest => (names? rest).map (s :: ·)
  | .current :: rest => names? rest
  | .root :: _ => none
  | .parent :: _ => none

/-- The names that lead from a directory to a path below it. -/
def namesBelow? (dir p : Path) : Option (List String) :=
  if dir.parts.isPrefixOf p.parts then names? (p.parts.drop dir.parts.length) else none

/-- Whether something is left of a page's file name without its extension. -/
def isStem (s : String) : Bool := s != "" && s.toList.getLast? != some '/'

/-- The identifier of the page in a file of a source. -/
def ofPath? (id : SourceId) (viewsDir path : Path) (ext : String) : Option String := do
  let names ← namesBelow? viewsDir path
  let stem ← Extension.strip? ext (String.intercalate "/" names)
  if isStem stem then
    match id.qualifier? with
    | some name => some (name ++ ":" ++ stem)
    | none => some stem
  else none

end Stencil.PageId
