/-
White space inside scalars.

A scalar may run over several lines, and what counts is how its lines are joined: a single line end
is a blank, and of several the first is dropped. Separators of lines and paragraphs are characters
of the text and always stay.
-/
import Stencil.Yaml.Cursor

set_option autoImplicit false

namespace Stencil

namespace Yaml

/-- The line ends between two pieces of a text: the one that ends the line of the first piece, if
any, and those of the blank lines behind it. -/
structure LineBreaks where
  first : Option Char
  further : List Char

namespace LineBreaks

/-- The line ends in white space. -/
def ofGap (gap : List Char) : LineBreaks :=
  let breaks := gap.filter isBreak
  ⟨breaks.head?, breaks.tail⟩

/-- All line ends. -/
def kept (b : LineBreaks) : List Char := b.first.toList ++ b.further

/-- What the line ends are in a text whose lines are joined. -/
def folded (b : LineBreaks) : List Char :=
  if b.first = some '\n' then (if b.further.isEmpty then [' '] else b.further) else b.kept

end LineBreaks

/-- The white space that comes first. -/
def gapOf (s : List Char) : List Char := s.takeWhile isWhite

/-- What white space between two words is in a text whose lines are joined. Blanks next to a line
end do not count. -/
def foldGap (gap : List Char) : List Char :=
  if gap.any isBreak then (LineBreaks.ofGap gap).folded else gap

/-- Whether a tab stands where a line in white space has to be indented by `indent`. The column is
not known before the first line end, and no line has to be indented there. -/
def hasEarlyTab (indent : Nat) : (column : Option Nat) → List Char → Bool
  | _, [] => false
  | column, c :: rest =>
    if isBreak c then hasEarlyTab indent (some 0) rest
    else (c == '\t' && column.any (· < indent)) || hasEarlyTab indent (column.map (· + 1)) rest

end Yaml

end Stencil
