/-
Scalars in quotation marks.

Between single marks every character stands for itself and the mark is written twice. Between
double marks a backslash begins an escape; at the end of a line it joins the lines without a blank.
In both, lines are joined as in plain scalars, but white space next to a mark counts.
-/
import Stencil.Value.Json
import Stencil.Yaml.LineBreaks

set_option autoImplicit false

namespace Stencil

namespace Yaml

/-! ## Escapes -/

/-- The character of a one-letter escape. -/
def letterEscape? (c : Char) : Option Char :=
  List.lookup c [('0', '\x00'), ('a', '\x07'), ('b', '\x08'), ('t', '\t'), ('\t', '\t'),
    ('n', '\n'), ('v', '\x0b'), ('f', '\x0c'), ('r', '\r'), ('e', '\x1b'), (' ', ' '), ('"', '"'),
    ('/', '/'), ('\\', '\\'), ('N', '\u0085'), ('_', '\u00a0'), ('L', '\u2028'), ('P', '\u2029')]

/-- The number of hexadecimal digits of a numbered escape. -/
def escapeDigits? (c : Char) : Option Nat :=
  List.lookup c [('x', 2), ('u', 4), ('U', 8)]

/-- The number that hexadecimal digits write. -/
def hexValue? (ds : List Char) : Option Nat :=
  ds.foldlM (fun n d => (Value.Json.hexDigit? d).map (16 * n + ·)) 0

/-- The character of an escape and the number of characters that write it, given the text behind the
backslash. -/
def escape? : List Char → Option (Char × Nat)
  | [] => none
  | c :: rest =>
    match letterEscape? c, escapeDigits? c with
    | some d, _ => some (d, 1)
    | none, none => none
    | none, some n => do
      let code ← hexValue? (rest.take n)
      if n ≤ rest.length ∧ code.isValidChar then some (Char.ofNat code, n + 1) else none

/-! ## Reading -/

/-- The two quotation marks. -/
inductive Quotation where
  | single
  | double
  deriving DecidableEq

/-- The character of a quotation mark. -/
def Quotation.mark : Quotation → Char
  | .single => '\''
  | .double => '"'

/-- The rest of a scalar in quotation marks, of which `acc` has been read, last character first. The
fuel exceeds the number of characters left. -/
def quotedFrom (q : Quotation) :
    (fuel : Nat) → (acc : List Char) → Cursor → Option (String × Cursor)
  | 0, _, _ => none
  | fuel + 1, acc, c =>
    match c.rest with
    | [] => none
    | d :: rest =>
      if c.isAtDocumentMark then none
      else if isWhite d then
        let gap := gapOf c.rest
        quotedFrom q fuel ((foldGap gap).reverse ++ acc) (c.drop gap.length)
      else if d == q.mark then
        if q = .single ∧ rest.head? = some '\'' then quotedFrom q fuel ('\'' :: acc) (c.drop 2)
        else some (String.ofList acc.reverse, c.next)
      else if q = .double ∧ d = '\\' then
        if rest.head?.any isBreak then
          let gap := gapOf rest
          let breaks := LineBreaks.ofGap gap
          quotedFrom q fuel (breaks.further.reverse ++ acc) (c.next.drop gap.length)
        else do
          let (e, n) ← escape? rest
          quotedFrom q fuel (e :: acc) (c.next.drop n)
      else quotedFrom q fuel (d :: acc) c.next

/-- Reads a scalar whose opening quotation mark comes first. -/
def quoted? (q : Quotation) (c : Cursor) : Option (String × Cursor) :=
  quotedFrom q (c.rest.length + 1) [] c.next

end Yaml

end Stencil
