/-
The values that templates work with.

Data arrives from outside without a schema, so one type of dynamic values covers it: nothing, truth
values, 64-bit integers, floating-point numbers, texts, lists, and maps from texts to values. The
entries of a map stand in the order of their keys; `Value.ofEntries` is the way to build one.
-/
import Stencil.Decimal.Binary
import Stencil.Table

set_option autoImplicit false

namespace Stencil

/-- A value that templates can be given and can compute. -/
inductive Value where
  | null
  | bool (b : Bool)
  | int (n : Int64)
  | float (x : Float)
  | string (s : String)
  | list (items : List Value)
  | map (entries : List (String × Value))

namespace Value

instance : Inhabited Value := ⟨.null⟩

/-- A map with the given entries; of several values for one key the last counts. -/
def ofEntries (entries : List (String × Value)) : Value := .map (Entries.ofList entries)

/-! ## Questions about a value -/

/-- What a condition takes for true: all but nothing, false, zero, and what is empty. -/
def truthy : Value → Bool
  | .null => false
  | .bool b => b
  | .int n => n != 0
  | .float x => x != 0
  | .string s => s != ""
  | .list items => !items.isEmpty
  | .map entries => !entries.isEmpty

/-- The name of a value's type, as messages give it. -/
def typeName : Value → String
  | .null => "nil"
  | .bool _ => "bool"
  | .int _ => "int"
  | .float _ => "float"
  | .string _ => "string"
  | .list _ => "list"
  | .map _ => "map"

/-- The text, if the value is one. -/
def asString? : Value → Option String
  | .string s => some s
  | _ => none

/-- The number as a floating-point number, if the value is one. -/
def asFloat? : Value → Option Float
  | .int n => some (Decimal.floatOfInteger n.toInt)
  | .float x => some x
  | _ => none

/-- The value reached by following the keys through nested maps. -/
def getPath? (v : Value) : List String → Option Value
  | [] => some v
  | k :: ks =>
    match v with
    | .map entries => (Entries.get? k entries).bind fun next => getPath? next ks
    | _ => none

/-! ## Equality -/

mutual

/-- Whether two values are the same: of one type and with equal contents. An integer never equals a
floating-point number, and what is not a number equals nothing. -/
def same : Value → Value → Bool
  | .null, .null => true
  | .bool a, .bool b => a == b
  | .int a, .int b => a == b
  | .float a, .float b => a == b
  | .string a, .string b => a == b
  | .list as, .list bs => sameItems as bs
  | .map as, .map bs => sameEntries as bs
  | _, _ => false

/-- Whether two lists have the same values in the same order. -/
def sameItems : List Value → List Value → Bool
  | [], [] => true
  | a :: as, b :: bs => same a b && sameItems as bs
  | _, _ => false

/-- Whether two maps have the same keys with the same values. -/
def sameEntries : List (String × Value) → List (String × Value) → Bool
  | [], [] => true
  | (k, a) :: as, (l, b) :: bs => k == l && same a b && sameEntries as bs
  | _, _ => false

end

end Value

end Stencil
