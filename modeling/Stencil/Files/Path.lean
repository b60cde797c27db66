/-
Paths and the locations that they lead to.

A path is text with `/` between its parts. Repeated slashes, a slash at the end and every `.` but a
leading one say nothing, so they are no parts. A location is what is left when a path stays below its
starting point: the names that lead from there to a file or directory.
-/
import Stencil.Text.Search

set_option autoImplicit false

namespace Stencil

/-- A path as it was written. -/
structure Path where
  text : String
  deriving DecidableEq, Repr

/-- What a path is made of. -/
inductive PathPart where
  /-- A leading slash. -/
  | root
  /-- A leading `.`. -/
  | current
  /-- A `..`. -/
  | parent
  | name (s : String)
  deriving DecidableEq, Repr

/-- The names that lead from a starting point to a file or directory. -/
abbrev Location := List String

/-! ## Parts -/

namespace PathPart

/-- The part that a piece of text between two slashes is, if it is one. -/
def ofPiece? (piece : List Char) : Option PathPart :=
  if piece = [] ∨ piece = ['.'] then none
  else if piece = ['.', '.'] then some .parent
  else some (.name (String.ofList piece))

/-- The part that the text in front of the first slash is. With a slash behind it, nothing stands
for the root. -/
def ofFirstPiece? (piece : List Char) (slashFollows : Bool) : Option PathPart :=
  if piece = [] then (if slashFollows then some .root else none)
  else if piece = ['.'] then some .current
  else ofPiece? piece

/-- The name that a part is, if it is one. -/
def name? : PathPart → Option String
  | .name s => some s
  | _ => none

end PathPart

/-- The path that leads to a location. -/
def Location.path (l : Location) : Path := ⟨String.intercalate "/" l⟩

/-- The location in which a location lies. The starting point lies in none. -/
def Location.parent? (l : Location) : Option Location :=
  if l.isEmpty then none else some l.dropLast

/-- The last name of a location, or nothing for the starting point. -/
def Location.fileName (l : Location) : String := l.getLast?.getD ""

namespace Path

/-- The text of a path between its slashes. -/
def pieces (p : Path) : List (List Char) := Text.split ['/'] p.text.toList

/-- The parts of the path that has the given pieces. -/
def partsOf : List (List Char) → List PathPart
  | [] => []
  | first :: rest =>
    (PathPart.ofFirstPiece? first !rest.isEmpty).toList ++ rest.filterMap PathPart.ofPiece?

/-- The parts of a path. -/
def parts (p : Path) : List PathPart := partsOf p.pieces

/-! ## Locations -/

/-- The location that parts lead to. A step upwards might leave the starting point, so there is none
for parts with one. -/
def locationOf? : List PathPart → Option Location
  | [] => some []
  | .parent :: _ => none
  | .name s :: rest => (locationOf? rest).map (s :: ·)
  | .root :: rest => locationOf? rest
  | .current :: rest => locationOf? rest

/-- The location that a path leads to, unless it may leave the starting point. -/
def location? (p : Path) : Option Location := locationOf? p.parts

/-! ## Names and neighbours -/

/-- The last part of a path if it is a name. -/
def fileName? (p : Path) : Option String := p.parts.getLast?.bind PathPart.name?

/-- Whether a path starts at the root. -/
def isAbsolute (p : Path) : Bool := p.text.toList.head? == some '/'

/-- The path `q` as seen from `p`. The empty path adds a slash, and an absolute one stands for
itself. -/
def join (p q : Path) : Path :=
  if q.isAbsolute then q
  else if p.text.isEmpty || p.text.toList.getLast? == some '/' then ⟨p.text ++ q.text⟩
  else ⟨p.text ++ "/" ++ q.text⟩

/-- Whether a piece adds nothing to the pieces before it. -/
def isIdle (piece : List Char) : Bool := piece = [] || piece = ['.']

/-- Pieces, last one first, without those at the end of the path that add nothing. The first piece
of a path always counts. -/
def dropIdle : List (List Char) → List (List Char)
  | [] => []
  | [first] => [first]
  | piece :: rest => if isIdle piece then dropIdle rest else piece :: rest

/-- The path without its last part. Neither the root nor the empty path has a parent. -/
def parent? (p : Path) : Option Path :=
  match p.parts with
  | [] => none
  | [.root] => none
  | _ =>
    let kept := (dropIdle ((dropIdle p.pieces.reverse).drop 1)).reverse
    if kept = [[]] then some ⟨"/"⟩ else some ⟨String.ofList (List.intercalate ['/'] kept)⟩

end Path

end Stencil
