/-
Places in a YAML file.

Indentation gives a file its structure, so whoever reads one has to know the column. A cursor is the
text that is left together with the line and the column at which it begins, both counted from zero.
It only ever moves forward, a character at a time.
-/
import Stencil.Text.Search

set_option autoImplicit false

namespace Stencil

namespace Yaml

/-! ## Characters -/

/-- The blanks inside a line. -/
def isBlank (c : Char) : Bool := c == ' ' || c == '\t'

/-- The characters that end a line, once `unifyLineEnds` has left a line feed for every control
character that does. -/
def isBreak (c : Char) : Bool := c == '\n' || c == '\u2028' || c == '\u2029'

/-- Blanks and line ends. -/
def isWhite (c : Char) : Bool := isBlank c || isBreak c

/-- The byte order mark, which may begin a line. -/
def byteOrderMark : Char := '\ufeff'

/-- The characters of names: ASCII letters and digits, `-` and `_`. -/
def isNameChar (c : Char) : Bool := c.isAlphanum || c == '-' || c == '_'

/-- The characters that structure flow collections. -/
def isFlowMark (c : Char) : Bool := [',', '[', ']', '\x7b', '\x7d'].contains c

/-- Whether a file may contain a character. Of the control characters these are the tab and the line
ends. -/
def isAllowed (c : Char) : Bool :=
  ['\t', '\n', '\r', '\u0085'].contains c || (' ' ≤ c && c ≤ '~')
    || ('\u00a0' ≤ c && !(c == '\ufffe' || c == '\uffff'))

/-- The characters of a file with a line feed for every line end that is a control character. A
carriage return and a line feed are one line end. -/
def unifyLineEnds : List Char → List Char
  | '\r' :: '\n' :: rest => '\n' :: unifyLineEnds rest
  | c :: rest => (if c == '\r' || c == '\u0085' then '\n' else c) :: unifyLineEnds rest
  | [] => []

/-- Whether nothing, a blank or a line end comes first. -/
def endsWord (s : List Char) : Bool := s.head?.all isWhite

/-! ## Cursors -/

/-- A place in a file and the text behind it. -/
structure Cursor where
  rest : List Char
  line : Nat
  column : Nat

namespace Cursor

/-- The beginning of a text. -/
def start (s : List Char) : Cursor := ⟨s, 0, 0⟩

/-- The place behind the next character. -/
def next (c : Cursor) : Cursor :=
  match c.rest with
  | [] => c
  | d :: rest => if isBreak d then ⟨rest, c.line + 1, 0⟩ else ⟨rest, c.line, c.column + 1⟩

/-- The place behind the next `n` characters. -/
def drop (c : Cursor) : Nat → Cursor
  | 0 => c
  | n + 1 => c.next.drop n

/-- The place behind the characters with a property that come first. -/
def skip (c : Cursor) (p : Char → Bool) : Cursor := c.drop (c.rest.takeWhile p).length

/-- The place at which `rest`, an end of the text on the same line, begins. -/
def upTo (c : Cursor) (rest : List Char) : Cursor := c.drop (c.rest.length - rest.length)

/-- Whether a line begins with three times the character `d` and nothing else up to the next blank:
so are the ends of documents marked. -/
def isAtMark (c : Cursor) (d : Char) : Bool :=
  c.column == 0 && [d, d, d].isPrefixOf c.rest && endsWord (c.rest.drop 3)

/-- Whether a document ends or begins here. -/
def isAtDocumentMark (c : Cursor) : Bool := c.isAtMark '-' || c.isAtMark '.'

/-- The next line, if nothing but blanks and a comment is left on this one. -/
def nextLine? (c : Cursor) : Option Cursor :=
  let body := c.skip isBlank
  let tail := if body.rest.head? = some '#' then body.skip (!isBreak ·) else body
  if tail.rest.head?.all isBreak then some tail.next else none

end Cursor

end Yaml

end Stencil
