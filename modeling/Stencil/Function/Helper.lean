/-
The functions that a site offers its templates unless it replaces them.

Helpers take the value they work on last, so that they read naturally behind a pipe: the separator
comes before the list, the pattern before the text. Those that transform a text accept any value and
work on what it prints as.
-/
import Stencil.Function.Table
import Stencil.Value.Printer
import Stencil.Text.Blank
import Stencil.Text.Search
import Stencil.Text.Slug

set_option autoImplicit false

namespace Stencil

/-- The helpers. -/
inductive Helper where
  | add
  | contains
  | default
  | dict
  | hasPrefix
  | hasSuffix
  | join
  | list
  | lower
  | replace
  | safe
  | slugify
  | split
  | sub
  | title
  | trim
  | upper
  deriving DecidableEq, Repr

namespace Helper

/-- The name by which templates call a helper. -/
def name : Helper → String
  | .add => "add"
  | .contains => "contains"
  | .default => "default"
  | .dict => "dict"
  | .hasPrefix => "has_prefix"
  | .hasSuffix => "has_suffix"
  | .join => "join"
  | .list => "list"
  | .lower => "lower"
  | .replace => "replace"
  | .safe => "safe"
  | .slugify => "slugify"
  | .split => "split"
  | .sub => "sub"
  | .title => "title"
  | .trim => "trim"
  | .upper => "upper"

/-- All helpers, in the order of their names. -/
def all : List Helper :=
  [.add, .contains, .default, .dict, .hasPrefix, .hasSuffix, .join, .list, .lower, .replace, .safe,
    .slugify, .split, .sub, .title, .trim, .upper]

/-- The helper with the given name. -/
def ofName? (s : String) : Option Helper := all.find? fun h => h.name == s

/-! ## Texts -/

/-- The value of a list of characters. -/
def ofChars (cs : List Char) : Value := .string (String.ofList cs)

/-- A transformation of the text that the only argument prints as. -/
def transform (function : String) (f : List Char → List Char) : Function
  | [v] => .ok (ofChars (f v.render.toList))
  | args => .error (.arityOf function "1" args.length)

/-- The text of the argument at `index`. -/
def expectText (index : Nat) (v : Value) : Except FuncError (List Char) :=
  match v with
  | .string s => .ok s.toList
  | v => .error (.wrongType index "string" v)

/-- A question about a pattern and a text. -/
def predicate (f : (pattern subject : List Char) → Bool) : Function
  | [pattern, subject] => do
    let p ← expectText 0 pattern
    let s ← expectText 1 subject
    .ok (.bool (f p s))
  | args => .error (.arity "2" args.length)

/-- The printed values of a list with a separator between neighbours. Nothing counts as the empty
list. -/
def joinValues : Function
  | [separator, items] => do
    let sep ← expectText 0 separator
    match items with
    | .list vs => .ok (ofChars (List.intercalate sep (vs.map fun v => v.render.toList)))
    | .null => .ok (.string "")
    | v => .error (.wrongType 1 "list" v)
  | args => .error (.arity "2" args.length)

/-- The pieces of a text between the matches of a separator. -/
def splitText : Function
  | [separator, subject] => do
    let sep ← expectText 0 separator
    let s ← expectText 1 subject
    .ok (.list ((Text.split sep s).map ofChars))
  | args => .error (.arity "2" args.length)

/-- A text with every match of a pattern exchanged for another text. -/
def replaceText : Function
  | [pattern, replacement, subject] => do
    let old ← expectText 0 pattern
    let new ← expectText 1 replacement
    let s ← expectText 2 subject
    .ok (ofChars (Text.replace old new s))
  | args => .error (.arity "3" args.length)

/-! ## Values -/

/-- The second argument if it counts as true, else the first. -/
def fallback : Function
  | [other] => .ok other
  | [other, v] => .ok (if v.truthy then v else other)
  | args => .error (.arity "1 or 2" args.length)

/-- The only argument as it is: output is never escaped, so there is nothing to mark. -/
def unchanged : Function
  | [v] => .ok v
  | args => .error (.arity "1" args.length)

/-- An operation on two numbers: exact on integers, where it must not leave 64 bits, and on
floating-point numbers as soon as one of the two is one. -/
def arithmetic (onInts : Int → Int → Int) (onFloats : Float → Float → Float) : Function
  | [.int a, .int b] =>
    match Decimal.int64? (onInts a.toInt b.toInt) with
    | some n => .ok (.int n)
    | none => .error .overflow
  | [a, b] =>
    match a.asFloat?, b.asFloat? with
    | some x, some y => .ok (.float (onFloats x y))
    | none, _ => .error (.wrongType 0 "number" a)
    | _, none => .error (.wrongType 1 "number" b)
  | args => .error (.arity "2" args.length)

/-- Keys and values in turn, the first key standing at `index`. -/
def keyedPairs (index : Nat) : List Value → Except FuncError (List (String × Value))
  | key :: v :: rest =>
    match key with
    | .string k => do
      let pairs ← keyedPairs (index + 2) rest
      .ok ((k, v) :: pairs)
    | key => .error (.wrongType index "string key" key)
  | _ => .ok []

/-- The map of keys and values given in turn; of several values for one key the last counts. -/
def mapOfPairs (args : List Value) : Except FuncError Value :=
  if args.length % 2 = 0 then do
    let pairs ← keyedPairs 0 args
    .ok (Value.ofEntries pairs)
  else .error .unpairedKey

/-! ## Calling by name -/

/-- What a helper does. -/
def apply : Helper → Function
  | .add => arithmetic (· + ·) (· + ·)
  | .contains => predicate Text.occurs
  | .default => fallback
  | .dict => mapOfPairs
  | .hasPrefix => predicate fun p s => p.isPrefixOf s
  | .hasSuffix => predicate fun p s => p.isSuffixOf s
  | .join => joinValues
  | .list => fun args => .ok (.list args)
  | .lower => transform "lower" Text.lower
  | .replace => replaceText
  | .safe => unchanged
  | .slugify => transform "slugify" Text.slug
  | .split => splitText
  | .sub => arithmetic (· - ·) (· - ·)
  | .title => transform "title" Text.title
  | .trim => transform "trim" Text.trim
  | .upper => transform "upper" Text.upper

/-- The table of all helpers under their names. -/
def table : FuncTable := Table.ofList (all.map fun h => (h.name, h.apply))

end Helper

end Stencil
