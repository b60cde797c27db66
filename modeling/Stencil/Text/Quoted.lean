/-
Names in quotation marks, as messages show them.

A quoted name must be readable and unambiguous: the mark itself and the backslash are escaped, the
usual control characters have their short escapes, and whatever would not show, or would decorate
its neighbour, is written by its code point.
-/
import Stencil.Text.Printable
import Stencil.Text.Extending

set_option autoImplicit false

namespace Stencil.Text

/-- A character by its code point in hexadecimal, as in `\u{200b}`. -/
def codePointEscape (c : Char) : List Char :=
  ['\\', 'u', '\x7b'] ++ Nat.toDigits 16 c.toNat ++ ['\x7d']

/-- How a character is written between two copies of `mark`. -/
def quotedChar (mark c : Char) : List Char :=
  if c = '\x00' then ['\\', '0']
  else if c = '\t' then ['\\', 't']
  else if c = '\r' then ['\\', 'r']
  else if c = '\n' then ['\\', 'n']
  else if c = '\\' ∨ c = mark then ['\\', c]
  else if extendsGrapheme c || !isPrintable c then codePointEscape c
  else [c]

/-- A text in double quotation marks. -/
def quote (s : String) : String :=
  String.ofList (['"'] ++ s.toList.flatMap (quotedChar '"') ++ ['"'])

/-- A single character in single quotation marks. -/
def quoteChar (c : Char) : String :=
  String.ofList (['\''] ++ quotedChar '\'' c ++ ['\''])

end Stencil.Text
