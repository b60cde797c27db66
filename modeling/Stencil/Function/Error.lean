/-
Failures of functions called from templates.

A function refuses its arguments for one of a few reasons. Each reason is a constructor that keeps
what the message mentions; the wording is one function beside them. Functions that come from outside
may fail with a message of their own.
-/
import Stencil.Value.Basic
import Stencil.Decimal.Integer

set_option autoImplicit false

namespace Stencil

/-- Why a function has no result. -/
inductive FuncError where
  /-- The number of arguments is `got`; the function takes `want` of them. -/
  | arity (want : String) (got : Nat)
  /-- The same, from one of the functions that give their name with it. -/
  | arityOf (function want : String) (got : Nat)
  /-- The argument at `index`, counted from zero, is of the type `got`. -/
  | argType (index : Nat) (want got : String)
  | noLength (typeName : String)
  | indexOutOfRange (i : Int64)
  | notIndexable (container key : String)
  | incomparable (left right : String)
  | notANumber
  | overflow
  /-- A key without its value. -/
  | unpairedKey
  /-- A message of a function from outside. -/
  | custom (text : String)
  deriving DecidableEq, Repr

namespace FuncError

/-- The message about a number of arguments. -/
def arityMessage (want : String) (got : Nat) : String :=
  "wrong number of args: want " ++ want ++ ", got " ++ Decimal.integer got

/-- The message of a failure. -/
def message : FuncError → String
  | .arity want got => arityMessage want got
  | .arityOf function want got => function ++ ": " ++ arityMessage want got
  | .argType index want got =>
    "arg " ++ Decimal.integer index ++ ": expected " ++ want ++ ", got " ++ got
  | .noLength typeName => "len of type " ++ typeName
  | .indexOutOfRange i => "index out of range: " ++ Decimal.integer i.toInt
  | .notIndexable container key => "can't index item of type " ++ container ++ " with " ++ key
  | .incomparable left right =>
    "incompatible types for comparison: " ++ left ++ " and " ++ right
  | .notANumber => "cannot compare NaN"
  | .overflow => "integer overflow"
  | .unpairedKey => "dict: odd number of arguments"
  | .custom text => text

/-- The failure of a function that wants another type for the argument `v` at `index`. -/
def wrongType (index : Nat) (want : String) (v : Value) : FuncError :=
  .argType index want v.typeName

end FuncError

/-- A function on template values. -/
abbrev Function := List Value → Except FuncError Value

end Stencil
