/-
The extension of template files.

An extension is the literal end of a file name. It is given with or without its point, and the usual
one need not be given at all.
-/
import Stencil.Files.Path
import Stencil.Text.Blank

set_option autoImplicit false

namespace Stencil.Extension

/-- The extension of a site that names none. -/
def usual : String := ".html"

/-- The extension that a text stands for: blanks around it do not count, and a point is put in front
where it is missing. -/
def ofText (s : String) : String :=
  match Text.trim s.toList with
  | [] => usual
  | '.' :: rest => String.ofList ('.' :: rest)
  | cs => String.ofList ('.' :: cs)

/-- Whether a name ends in an extension. -/
def endsName (ext name : String) : Bool := ext.toList.isSuffixOf name.toList

/-- A name without its extension, if it ends in it. -/
def strip? (ext name : String) : Option String :=
  if endsName ext name then
    some (String.ofList (name.toList.take (name.toList.length - ext.toList.length)))
  else none

/-- Whether the file name of a path ends in an extension. -/
def endsPath (ext : String) (p : Path) : Bool :=
  match p.fileName? with
  | some name => endsName ext name
  | none => false

end Stencil.Extension
