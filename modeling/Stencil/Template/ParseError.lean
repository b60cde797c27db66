/-
Why a source is not a template.

Every failure names its cause and a place in the source. The cause mentions the construct in which
something was expected, since the same token may be right in one and wrong in another.
-/
import Stencil.Template.Lexeme
import Stencil.Template.Tree

set_option autoImplicit false

namespace Stencil

/-- The constructs that messages mention. -/
inductive Construct where
  | action
  | command
  | ifClause
  | elseIf
  | rebind (kind : Rebinding)
  | template
  | block
  | define
  | elseClause
  | endClause
  | parentheses
  deriving DecidableEq, Repr

/-- The name of a construct. -/
def Construct.name : Construct → String
  | .action => "action"
  | .command => "command"
  | .ifClause => "if"
  | .elseIf => "else if"
  | .rebind .range => "range"
  | .rebind .scoped => "with"
  | .template => "template"
  | .block => "block"
  | .define => "define"
  | .elseClause => "else"
  | .endClause => "end"
  | .parentheses => "parenthesized pipeline"

/-- The causes of a failure to parse. -/
inductive ParseCause where
  | lex (cause : LexCause)
  /-- A token that cannot stand outside actions. -/
  | strayToken (token : Token)
  | unexpectedToken (token : Token) (place : Construct)
  | unexpectedEof (place : Construct)
  | strayEnd
  | strayElse
  | elseNotAllowed (place : Construct)
  | elseIfNotAllowed (place : Construct)
  | defineInside
  | nameExpected (place : Construct) (token : Token)
  | missingValue (place : Construct)
  | undefinedFunction (name : String)
  | definedTwice (name : String)

/-- The message of a failure to parse. -/
def ParseCause.message : ParseCause → String
  | .lex cause => cause.message
  | .strayToken token => "unexpected " ++ token.describe
  | .unexpectedToken token place => "unexpected " ++ token.describe ++ " in " ++ place.name
  | .unexpectedEof place => "unexpected EOF in " ++ place.name
  | .strayEnd => "unexpected \x7b\x7bend\x7d\x7d"
  | .strayElse => "unexpected \x7b\x7belse\x7d\x7d"
  | .elseNotAllowed place => "unexpected \x7b\x7belse\x7d\x7d in " ++ place.name
  | .elseIfNotAllowed place => "else if is not allowed in " ++ place.name
  | .defineInside => "\x7b\x7bdefine\x7d\x7d is only allowed at the top level"
  | .nameExpected place token =>
    place.name ++ " clause: expected template name string, got " ++ token.describe
  | .missingValue place => "missing value for " ++ place.name
  | .undefinedFunction name => "function " ++ Text.quote name ++ " not defined"
  | .definedTwice name => "multiple definition of template " ++ Text.quote name

/-- A failure to parse a source. -/
structure ParseError where
  cause : ParseCause
  pos : Position

end Stencil
