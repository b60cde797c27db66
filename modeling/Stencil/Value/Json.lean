/-
Reading JSON text as a value.

The reader is strict: one value, nothing after it but blanks, no leading zeros, no control
characters or unpaired surrogates in strings, no number beyond the range of floating-point numbers,
and at most 127 arrays and objects inside each other. A number without point and exponent that fits
in 64 bits is an integer, every other number is floating-point, and so is a negative zero. Of
repeated keys in an object the last one counts.

The nesting limit is the measure by which the reader ends: a list of elements calls the reader of
one element, which has one level less to go.
-/
import Stencil.Value.Basic
import Stencil.Decimal.Integer

set_option autoImplicit false

namespace Stencil.Value.Json

/-! ## Blanks and words -/

/-- The four blanks of the format. -/
def isSpace (c : Char) : Bool := c == ' ' || c == '\t' || c == '\n' || c == '\r'

/-- The text behind its leading blanks. -/
def skipSpace (s : List Char) : List Char := s.dropWhile isSpace

/-- The text behind the given characters, if it starts with them. -/
def expect (cs s : List Char) : Option (List Char) :=
  if cs.isPrefixOf s then some (s.drop cs.length) else none

/-! ## Strings -/

/-- The value of a hexadecimal digit. -/
def hexDigit? (c : Char) : Option Nat :=
  if '0' ≤ c ∧ c ≤ '9' then some (c.toNat - 48)
  else if 'a' ≤ c ∧ c ≤ 'f' then some (c.toNat - 87)
  else if 'A' ≤ c ∧ c ≤ 'F' then some (c.toNat - 55)
  else none

/-- The number written by the next four hexadecimal digits. -/
def fourHex : List Char → Option (Nat × List Char)
  | a :: b :: c :: d :: rest => do
    let a ← hexDigit? a
    let b ← hexDigit? b
    let c ← hexDigit? c
    let d ← hexDigit? d
    some (((a * 16 + b) * 16 + c) * 16 + d, rest)
  | _ => none

/-- The character written behind `\u`: one code unit, or two that form a surrogate pair. -/
def unicodeEscape (s : List Char) : Option (Char × List Char) := do
  let (unit, rest) ← fourHex s
  if 0xdc00 ≤ unit ∧ unit ≤ 0xdfff then none
  else if 0xd800 ≤ unit ∧ unit ≤ 0xdbff then
    match rest with
    | '\\' :: 'u' :: more =>
      let (low, rest) ← fourHex more
      if 0xdc00 ≤ low ∧ low ≤ 0xdfff then
        some (Char.ofNat (0x10000 + (unit - 0xd800) * 0x400 + (low - 0xdc00)), rest)
      else none
    | _ => none
  else some (Char.ofNat unit, rest)

/-- The character written by an escape, given the text behind its backslash. -/
def escape : List Char → Option (Char × List Char)
  | '"' :: rest => some ('"', rest)
  | '\\' :: rest => some ('\\', rest)
  | '/' :: rest => some ('/', rest)
  | 'b' :: rest => some ('\x08', rest)
  | 'f' :: rest => some ('\x0c', rest)
  | 'n' :: rest => some ('\n', rest)
  | 'r' :: rest => some ('\r', rest)
  | 't' :: rest => some ('\t', rest)
  | 'u' :: rest => unicodeEscape rest
  | _ => none

/-- The rest of a string of which `acc`, last character first, has been read. The fuel is the number
of characters left. -/
def stringFrom : (fuel : Nat) → (acc : List Char) → List Char → Option (String × List Char)
  | 0, _, _ => none
  | _, _, [] => none
  | fuel + 1, acc, c :: rest =>
    if c = '"' then some (String.ofList acc.reverse, rest)
    else if c = '\\' then
      match escape rest with
      | some (d, more) => stringFrom fuel (d :: acc) more
      | none => none
    else if c.toNat < 0x20 then none
    else stringFrom fuel (c :: acc) rest

/-- A string, given the text behind its opening quotation mark. -/
def string (s : List Char) : Option (String × List Char) := stringFrom (s.length + 1) [] s

/-! ## Numbers -/

/-- The digits of a fraction, if there is one. A point without digits is an error. -/
def fractionDigits : List Char → Option (Option (List Char) × List Char)
  | '.' :: rest =>
    let (ds, more) := Decimal.takeDigits rest
    if ds.isEmpty then none else some (some ds, more)
  | s => some (none, s)

/-- The exponent of a number, if there is one. An `e` without digits is an error. -/
def exponent (s : List Char) : Option (Option Int × List Char) :=
  match s with
  | c :: _ =>
    if c = 'e' ∨ c = 'E' then
      let (e, more) := Decimal.takeExponent s
      if more.length = s.length then none else some (some e, more)
    else some (none, s)
  | [] => some (none, s)

/-- A floating-point value, unless the number is beyond the range. -/
def finite? (w : Decimal.Written) : Option Value :=
  let x := w.toFloat
  if x.isInf then none else some (.float x)

/-- A number without its sign. -/
def number (negative : Bool) (s : List Char) : Option (Value × List Char) := do
  let (whole, rest) := Decimal.takeDigits s
  -- A zero is not followed by further digits.
  if whole.isEmpty || (whole.length > 1 && whole.head? == some '0') then none
  let (places, rest) ← fractionDigits rest
  let (exp, rest) ← exponent rest
  let digits := whole ++ places.getD []
  let written : Decimal.Written :=
    ⟨negative, Decimal.digitsValue digits, exp.getD 0 - ((places.getD []).length : Int)⟩
  let isWhole := places.isNone && exp.isNone && !(negative && written.mantissa = 0)
  match if isWhole then Decimal.int64? (Decimal.signed negative whole) else none with
  | some n => some (.int n, rest)
  | none => (finite? written).map fun v => (v, rest)

/-! ## Values -/

/-- The elements of an array behind the first blank-free character, read by `element`. The fuel is
the number of characters left. -/
def elements (element : List Char → Option (Value × List Char)) :
    (fuel : Nat) → List Char → Option (List Value × List Char)
  | 0, _ => none
  | fuel + 1, s => do
    let (v, rest) ← element s
    match skipSpace rest with
    | ',' :: more =>
      let (vs, rest) ← elements element fuel (skipSpace more)
      some (v :: vs, rest)
    | ']' :: more => some ([v], more)
    | _ => none

/-- The members of an object behind the first blank-free character, their values read by
`element`. -/
def members (element : List Char → Option (Value × List Char)) :
    (fuel : Nat) → List Char → Option (List (String × Value) × List Char)
  | 0, _ => none
  | fuel + 1, s => do
    let afterQuote ← expect ['"'] s
    let (k, rest) ← string afterQuote
    let afterColon ← expect [':'] (skipSpace rest)
    let (v, rest) ← element (skipSpace afterColon)
    match skipSpace rest with
    | ',' :: more =>
      let (es, rest) ← members element fuel (skipSpace more)
      some ((k, v) :: es, rest)
    | '\x7d' :: more => some ([(k, v)], more)
    | _ => none

/-- A value without blanks before it, with at most `levels` arrays and objects inside each other. -/
def value (levels : Nat) (s : List Char) : Option (Value × List Char) :=
  match s with
  | [] => none
  | '"' :: rest => (string rest).map fun (t, more) => (.string t, more)
  | '-' :: rest => number true rest
  | '[' :: rest =>
    match levels with
    | 0 => none
    | n + 1 =>
      match skipSpace rest with
      | ']' :: more => some (.list [], more)
      | body => (elements (value n) (body.length + 1) body).map fun (vs, more) => (.list vs, more)
  | '\x7b' :: rest =>
    match levels with
    | 0 => none
    | n + 1 =>
      match skipSpace rest with
      | '\x7d' :: more => some (.map [], more)
      | body =>
        (members (value n) (body.length + 1) body).map fun (es, more) => (ofEntries es, more)
  | c :: _ =>
    if c.isDigit then number false s
    else if c = 'n' then (expect ['n', 'u', 'l', 'l'] s).map fun rest => (.null, rest)
    else if c = 't' then (expect ['t', 'r', 'u', 'e'] s).map fun rest => (.bool true, rest)
    else (expect ['f', 'a', 'l', 's', 'e'] s).map fun rest => (.bool false, rest)

/-- How many arrays and objects may stand inside each other. -/
def nestingLimit : Nat := 127

/-- Reads a whole text. -/
def read? (s : String) : Option Value := do
  let (v, rest) ← value nestingLimit (skipSpace s.toList)
  if (skipSpace rest).isEmpty then some v else none

end Stencil.Value.Json
