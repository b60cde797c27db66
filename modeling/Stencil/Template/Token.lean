/-
The tokens of a template source.

Text outside actions is one token; inside `{{ … }}` there are words, operands and
punctuation. A chain of fields such as `.user.name` is a single token, because no blank may stand
inside it.
-/
import Stencil.Template.Position
import Stencil.Text.Quoted
import Stencil.Decimal.Text

set_option autoImplicit false

namespace Stencil

/-- The words that steer a template. -/
inductive Keyword where
  | ifWord
  | elseWord
  | endWord
  | rangeWord
  | withWord
  | defineWord
  | templateWord
  | blockWord
  deriving DecidableEq, Repr

namespace Keyword

/-- The spelling of a keyword. -/
def spelling : Keyword → String
  | .ifWord => "if"
  | .elseWord => "else"
  | .endWord => "end"
  | .rangeWord => "range"
  | .withWord => "with"
  | .defineWord => "define"
  | .templateWord => "template"
  | .blockWord => "block"

/-- All keywords. -/
def all : List Keyword :=
  [.ifWord, .elseWord, .endWord, .rangeWord, .withWord, .defineWord, .templateWord, .blockWord]

/-- The keyword with the given spelling. -/
def ofSpelling? (s : String) : Option Keyword := all.find? fun k => k.spelling == s

end Keyword

/-- A token of a template source. -/
inductive Token where
  /-- Text outside actions. -/
  | text (s : String)
  | actionStart
  | actionEnd
  | keyword (k : Keyword)
  /-- The name of a function. -/
  | ident (name : String)
  /-- A chain of fields of the current value. -/
  | field (path : List String)
  /-- The current value. -/
  | dot
  /-- The value given to the template, or a chain of its fields. -/
  | variable (path : List String)
  | string (s : String)
  | int (n : Int64)
  | float (x : Float)
  | bool (b : Bool)
  | nil
  | pipe
  | leftParen
  | rightParen

/-- A token as messages about a misplaced one describe it. -/
def Token.describe : Token → String
  | .text _ => "text"
  | .actionStart => "\"\x7b\x7b\""
  | .actionEnd => "\"\x7d\x7d\""
  | .keyword k => "<" ++ k.spelling ++ ">"
  | .ident name => "function " ++ Text.quote name
  | .field path => "field ." ++ String.intercalate "." path
  | .dot => "\".\""
  | .variable _ => "variable"
  | .string s => "string " ++ Text.quote s
  | .int n => "number " ++ Decimal.integer n.toInt
  | .float x => "number " ++ Decimal.text x
  | .bool b => if b then "true" else "false"
  | .nil => "nil"
  | .pipe => "\"|\""
  | .leftParen => "\"(\""
  | .rightParen => "\")\""

/-- A token and where it begins. -/
structure PlacedToken where
  token : Token
  pos : Position

end Stencil
