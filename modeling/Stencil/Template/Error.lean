/-
Failures of templates.

A source may not be readable or not be a template; executing one may ask for a template that does
not exist, misuse a value, call a function that fails, or nest templates too deeply. Each failure
says in which template it arose.
-/
import Stencil.Files.Error
import Stencil.Function.Error
import Stencil.Template.ParseError

set_option autoImplicit false

namespace Stencil

/-- How a template misuses what it is given. -/
inductive Misuse where
  | notIterable (typeName : String)
  /-- An argument for something that is no function, in the command at `pos`. -/
  | argumentToValue (pos : Position)
  | undefinedFunction (name : String)
  deriving DecidableEq, Repr

/-- The message of a misuse. -/
def Misuse.message : Misuse → String
  | .notIterable typeName => "range can't iterate over " ++ typeName
  | .argumentToValue pos => pos.text ++ ": can't give argument to non-function"
  | .undefinedFunction name => "function " ++ Text.quote name ++ " not defined"

/-- How many templates may be inside each other when one is executed. -/
def depthLimit : Nat := 100

/-- Why a template cannot be parsed or executed. -/
inductive TemplateError where
  | parse (template : String) (error : ParseError)
  | undefinedTemplate (name group : String)
  | misuse (template : String) (cause : Misuse)
  | function (template called : String) (error : FuncError)
  /-- The template that would have been one level too deep. -/
  | tooDeep (template : String)
  | read (path : Path) (error : FileError)

/-- The message of a failure. -/
def TemplateError.message : TemplateError → String
  | .parse template error =>
    "template: " ++ template ++ ":" ++ error.pos.text ++ ": " ++ error.cause.message
  | .undefinedTemplate name group =>
    "template: no template " ++ Text.quote name ++ " associated with group " ++ Text.quote group
  | .misuse template cause => "template: " ++ template ++ ": " ++ cause.message
  | .function template called error =>
    "template: " ++ template ++ ": error calling " ++ called ++ ": " ++ error.message
  | .tooDeep template =>
    "template: " ++ template ++ ": exceeded maximum template depth (" ++
      Decimal.integer depthLimit ++ ")"
  | .read path error => "template: reading " ++ path.text ++ ": " ++ error.message

end Stencil
