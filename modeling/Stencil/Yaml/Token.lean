/-
Tokens of a YAML file.

Between the characters of a file and its nodes stand tokens. The beginning and the end of a block
mapping, which nothing but indentation marks, are tokens like the braces of a flow mapping, and so
is the place at which a key begins.
-/
import Stencil.Yaml.Tag

set_option autoImplicit false

namespace Stencil

namespace Yaml

/-- The tokens of a file. -/
inductive Token where
  | directive (d : Directive)
  | documentStart
  | documentEnd
  | blockStart
  | blockEnd
  | flowStart
  | flowEnd
  /-- The comma between two entries of a flow mapping. -/
  | comma
  | key
  | value
  | alias (name : String)
  | anchor (name : String)
  | tag (t : Tag)
  | scalar (isPlain : Bool) (text : String)
  deriving DecidableEq

/-- The directive that a token is. -/
def Token.directive? : Token → Option Directive
  | .directive d => some d
  | _ => none

end Yaml

end Stencil
