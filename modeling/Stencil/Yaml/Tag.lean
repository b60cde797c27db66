/-
Tags and directives.

A tag says what a node is. It is written in full or as a suffix behind a handle, which stands for
the first part of the tag; directives before a document say which handles there are. The text of a
tag is a sequence of octets, each kept as the character with its number.
-/
import Stencil.Decimal.Reader
import Stencil.Yaml.Quoted

set_option autoImplicit false

namespace Stencil

namespace Yaml

/-! ## Text of tags -/

/-- The characters of tags. In a tag between angle brackets there are three more. -/
def isTagChar (isWhole : Bool) (c : Char) : Bool :=
  isNameChar c
    || [';', '/', '?', ':', '@', '&', '=', '+', '$', '.', '!', '~', '*', '\'', '(', ')'].contains c
    || (isWhole && [',', '[', ']'].contains c)

/-- The number of octets that follow `octet` in the encoding of a character, `due` being the number
that have to come. -/
def octetsBehind? (due octet : Nat) : Option Nat :=
  if due ≠ 0 then (if octet / 64 = 2 then some (due - 1) else none)
  else if octet / 128 = 0 then some 0
  else if octet / 32 = 6 then some 1
  else if octet / 16 = 14 then some 2
  else if octet / 8 = 30 then some 3
  else none

/-- The octets of a tag up to its end and what follows them; `due` octets are still missing from the
character before. A percent sign and two digits write an octet. -/
def tagOctets? (isWhole : Bool) : (due : Nat) → List Char → Option (List Char × List Char)
  | due, '%' :: h :: l :: rest => do
    let octet ← hexValue? [h, l]
    let more ← octetsBehind? due octet
    let (text, following) ← tagOctets? isWhole more rest
    some (Char.ofNat octet :: text, following)
  | due, c :: rest =>
    if due ≠ 0 || c == '%' then none
    else if isTagChar isWhole c then
      (tagOctets? isWhole 0 rest).map fun (text, following) => (c :: text, following)
    else some ([], c :: rest)
  | due, [] => if due = 0 then some ([], []) else none

/-- The text that octets write. An octet zero ends it. -/
def ofOctets (octets : List Char) : String := String.ofList (octets.takeWhile (· != '\x00'))

/-! ## Tags -/

/-- A tag as it is written. -/
structure Tag where
  /-- The handle, unless the tag is written in full. -/
  handle : Option String
  suffix : String
  deriving DecidableEq

namespace Tag

/-- The tag that only says that a node is not plain. -/
def bare : Tag := ⟨none, "!"⟩

/-- The tag of nothing. -/
def null : String := "tag:yaml.org,2002:null"

/-- The handle that comes first, with whether it ends with an exclamation mark of its own. -/
def handleOf (s : List Char) : String × Bool :=
  let name := s.tail.takeWhile isNameChar
  if (s.drop (name.length + 1)).head? = some '!' then (String.ofList ('!' :: name ++ ['!']), true)
  else (String.ofList ('!' :: name), false)

/-- The tag that comes first, an exclamation mark being there, and what follows it. -/
def split? (s : List Char) : Option (Tag × List Char) :=
  if s.tail.head? = some '<' then do
    let (octets, following) ← tagOctets? true 0 (s.drop 2)
    if octets.isEmpty ∨ following.head? ≠ some '>' then none
    else some (⟨none, ofOctets octets⟩, following.tail)
  else do
    let (handle, isClosed) := handleOf s
    if isClosed then
      let (octets, following) ← tagOctets? false 0 (s.drop handle.length)
      if octets.isEmpty then none else some (⟨some handle, ofOctets octets⟩, following)
    else
      let (octets, following) ← tagOctets? false 0 s.tail
      let suffix := ofOctets octets
      some (if suffix = "" then bare else ⟨some "!", suffix⟩, following)

/-- Reads a tag, an exclamation mark being there. In a flow collection a comma may follow it. -/
def read? (inFlow : Bool) (c : Cursor) : Option (Tag × Cursor) := do
  let (tag, following) ← split? c.rest
  if endsWord following ∨ (inFlow ∧ following.head? = some ',') then some (tag, c.upTo following)
  else none

/-- The handles that need no directive, and what they stand for. -/
def usualHandles : List (String × String) := [("!", "!"), ("!!", "tag:yaml.org,2002:")]

/-- A tag in full, given what the handles of directives stand for. -/
def text? (handles : List (String × String)) (t : Tag) : Option String :=
  match t.handle with
  | none => some t.suffix
  | some handle => ((handles ++ usualHandles).lookup handle).map (· ++ t.suffix)

end Tag

/-! ## Directives -/

/-- A directive. -/
inductive Directive where
  | version (major minor : Nat)
  | handle (name stem : String)
  deriving DecidableEq

namespace Directive

/-- The number that comes first and what follows it. It has at most nine digits. -/
def number? (s : List Char) : Option (Nat × List Char) :=
  let digits := s.takeWhile Char.isDigit
  if digits.isEmpty ∨ digits.length > 9 then none
  else some (Decimal.digitsValue digits, s.drop digits.length)

/-- The version that comes first and what follows it. -/
def version? (s : List Char) : Option (Directive × List Char) := do
  let (major, behind) ← number? s
  if behind.head? ≠ some '.' then none
  else
    let (minor, following) ← number? behind.tail
    some (.version major minor, following)

/-- The handle and what it stands for that come first and what follows them. -/
def handle? (s : List Char) : Option (Directive × List Char) :=
  let (name, isClosed) := Tag.handleOf s
  let behind := s.drop name.length
  if s.head? = some '!' ∧ (isClosed ∨ name = "!") ∧ behind.head?.any isBlank then do
    let (octets, following) ← tagOctets? true 0 (behind.dropWhile isBlank)
    if octets.isEmpty ∨ !endsWord following then none
    else some (.handle name (ofOctets octets), following)
  else none

/-- The directive that comes first behind its percent sign and what follows it. -/
def split? (s : List Char) : Option (Directive × List Char) :=
  let name := s.takeWhile isNameChar
  let behind := s.drop name.length
  let body := behind.dropWhile isBlank
  if !endsWord behind then none
  else if name = "YAML".toList then version? body
  else if name = "TAG".toList then handle? body
  else none

/-- Reads the line of a directive. -/
def read? (c : Cursor) : Option (Directive × Cursor) := do
  let (directive, following) ← split? c.next.rest
  let line ← (c.next.upTo following).nextLine?
  some (directive, line)

/-- The handles of directives and what they stand for, if the directives can stand before one
document: it has at most one version, which is 1.1 or 1.2, and gives no handle twice. -/
def handles? (directives : List Directive) : Option (List (String × String)) :=
  let versions := directives.filterMap fun
    | .version major minor => some (major, minor)
    | .handle _ _ => none
  let handles := directives.filterMap fun
    | .version _ _ => none
    | .handle name stem => some (name, stem)
  if versions.length ≤ 1 ∧ (versions.all fun v => v == (1, 1) || v == (1, 2))
      ∧ (handles.map Prod.fst).Nodup then some handles
  else none

end Directive

end Yaml

end Stencil
