/-
White space, and cutting it off the ends of a text.

Blank characters are those with the Unicode property White_Space: the ASCII ones with the vertical
tab and the form feed, the next-line control, the no-break space, and the wide and thin spaces of
typesetting. The zero-width space and the byte-order mark are not blank.
-/
import Stencil.Text.CharSet

set_option autoImplicit false

namespace Stencil.Text

/-! ## Blank characters -/

/-- The characters with the property White_Space. -/
def blankSet : CharSet where
  bounds := [
    0x9, 0xe, 0x20, 0x21, 0x85, 0x86, 0xa0, 0xa1, 0x1680, 0x1681, 0x2000, 0x200b, 0x2028, 0x202a,
    0x202f, 0x2030, 0x205f, 0x2060, 0x3000, 0x3001]

/-- Whether `c` is white space. -/
def isBlank (c : Char) : Bool := blankSet.contains c

/-! ## Trimming -/

/-- The text without the blanks at its start. -/
def trimStart (s : List Char) : List Char := s.dropWhile isBlank

/-- The text without the blanks at its end. -/
def trimEnd (s : List Char) : List Char := (s.reverse.dropWhile isBlank).reverse

/-- The text without the blanks at either end. -/
def trim (s : List Char) : List Char := trimEnd (trimStart s)

end Stencil.Text
