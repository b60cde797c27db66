/-
The functions that every template can call.

They are twelve: the connectives, the questions about a value's size and parts, the comparisons, and
printing. Equality takes two numbers for equal when they are equal as floating-point numbers, so that
data and literals compare by what they mean; order between two integers is exact.
-/
import Stencil.Function.Error
import Stencil.Value.Printer

set_option autoImplicit false

namespace Stencil

/-- The functions that need no table. -/
inductive Builtin where
  | and
  | eq
  | ge
  | gt
  | index
  | le
  | len
  | lt
  | ne
  | not
  | or
  | print
  deriving DecidableEq, Repr

namespace Builtin

/-- The name by which templates call a function. -/
def name : Builtin → String
  | .and => "and"
  | .eq => "eq"
  | .ge => "ge"
  | .gt => "gt"
  | .index => "index"
  | .le => "le"
  | .len => "len"
  | .lt => "lt"
  | .ne => "ne"
  | .not => "not"
  | .or => "or"
  | .print => "print"

/-- All of them, in the order of their names. -/
def all : List Builtin :=
  [.and, .eq, .ge, .gt, .index, .le, .len, .lt, .ne, .not, .or, .print]

/-- The function with the given name. -/
def ofName? (s : String) : Option Builtin := all.find? fun b => b.name == s

/-! ## Connectives -/

/-- The first value that satisfies `stops`, else the last one. -/
def firstOrLast (stops : Value → Bool) : (v : Value) → List Value → Value
  | v, [] => v
  | v, w :: rest => if stops v then v else firstOrLast stops w rest

/-- A connective: it stops at the first value that decides it. -/
def connective (stops : Value → Bool) : Function
  | [] => .error (.arity "at least 1" 0)
  | v :: rest => .ok (firstOrLast stops v rest)

/-- The opposite truth value. -/
def negation : Function
  | [v] => .ok (.bool !v.truthy)
  | args => .error (.arity "1" args.length)

/-! ## Sizes and parts -/

/-- The number of characters, elements or entries; nothing has none. -/
def sizeOf : Value → Except FuncError Nat
  | .string s => .ok s.toList.length
  | .list items => .ok items.length
  | .map entries => .ok entries.length
  | .null => .ok 0
  | v => .error (.noLength v.typeName)

/-- The size of a value, as a value. -/
def size : Function
  | [v] => do
    let n ← sizeOf v
    .ok (.int (Int64.ofNat n))
  | args => .error (.arity "1" args.length)

/-- The part of a value under a key. A map answers nothing for a key that it has not, and nothing
has nothing in it. -/
def part : Value → Value → Except FuncError Value
  | .list items, .int i =>
    -- A negative index is out of range like one that is too large.
    match (if 0 ≤ i then items[i.toInt.toNat]? else none) with
    | some v => .ok v
    | none => .error (.indexOutOfRange i)
  | .map entries, .string k => .ok ((Entries.get? k entries).getD .null)
  | .null, _ => .ok .null
  | container, key => .error (.notIndexable container.typeName key.typeName)

/-- The value reached from the first argument by the keys that follow it. -/
def lookUp : Function
  | [] => .error (.arity "at least 1" 0)
  | v :: keys => keys.foldlM part v

/-! ## Comparison -/

/-- Whether two values are equal: two numbers as floating-point numbers, else by type and
contents. -/
def equal (a b : Value) : Bool :=
  match a.asFloat?, b.asFloat? with
  | some x, some y => x == y
  | _, _ => Value.same a b

/-- Whether the first argument equals any of the others. -/
def equalsAny : Function
  | [] => .error (.arity "at least 2" 0)
  | [_] => .error (.arity "at least 2" 1)
  | v :: rest => .ok (.bool (rest.any (equal v)))

/-- Whether two arguments differ. -/
def differ : Function
  | [a, b] => .ok (.bool !equal a b)
  | args => .error (.arity "2" args.length)

/-- The order of two things, given whether the first is less and whether they are equal. -/
def orderingOf (less same : Bool) : Ordering := if less then .lt else if same then .eq else .gt

/-- The order of two values: integers and texts among themselves exactly, other numbers as
floating-point numbers. What is not a number has no place in the order. -/
def order (a b : Value) : Except FuncError Ordering :=
  match a, b with
  -- As floating-point numbers, neighbouring large integers would be equal.
  | .int x, .int y => .ok (orderingOf (x < y) (x == y))
  | .string x, .string y => .ok (orderingOf (x < y) (x == y))
  | _, _ =>
    match a.asFloat?, b.asFloat? with
    | some x, some y =>
      if x.isNaN || y.isNaN then .error .notANumber else .ok (orderingOf (x < y) (x == y))
    | _, _ => .error (.incomparable a.typeName b.typeName)

/-- A comparison: whether the order of two arguments is an accepted one. -/
def comparison (accepts : Ordering → Bool) : Function
  | [a, b] => do
    let o ← order a b
    .ok (.bool (accepts o))
  | args => .error (.arity "2" args.length)

/-! ## Printing -/

/-- Whether a value is a text. -/
def isString (v : Value) : Bool := v.asString?.isSome

/-- The texts of values in a row behind the value `before`. A space separates two neighbours of
which neither is a text. -/
def printAfter (before : Value) : List Value → List String
  | [] => []
  | v :: rest =>
    (if isString before || isString v then "" else " ") :: v.render :: printAfter v rest

/-- The arguments as one text. -/
def printAll : Function
  | [] => .ok (.string "")
  | v :: rest => .ok (.string (String.join (v.render :: printAfter v rest)))

/-! ## Calling by name -/

/-- What a function does. -/
def apply : Builtin → Function
  | .and => connective fun v => !v.truthy
  | .or => connective Value.truthy
  | .not => negation
  | .len => size
  | .index => lookUp
  | .eq => equalsAny
  | .ne => differ
  | .lt => comparison fun o => o.isLT
  | .le => comparison fun o => o.isLE
  | .gt => comparison fun o => o.isGT
  | .ge => comparison fun o => o.isGE
  | .print => printAll

end Builtin

end Stencil
