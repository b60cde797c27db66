/-
Capital and small letters.

A letter's counterpart may be several characters, so the maps go from a character to a list. One
rule looks beyond the character: a capital sigma at the end of a word becomes the final form `ς`.
It belongs to whole texts only; a single character taken by itself never stands at the end of a
word.
-/
import Stencil.Text.CaseTable
import Stencil.Text.Cased
import Stencil.Text.CaseIgnorable
import Stencil.Text.Alphanumeric

set_option autoImplicit false

namespace Stencil.Text

/-! ## Single characters -/

/-- The counterpart of the code point `n`, if the run lists it. -/
def CaseRun.image? (r : CaseRun) (n : Nat) : Option Nat :=
  if r.first ≤ n ∧ n ≤ r.last ∧ (n - r.first) % r.step = 0 then
    some (r.target + (n - r.first))
  else
    none

/-- The counterpart of `c`: an expansion, else the image in a run, else `c` itself. -/
def counterpart (expansions : List (Nat × List Nat)) (runs : List CaseRun) (c : Char) : List Char :=
  match expansions.lookup c.toNat with
  | some codes => codes.map Char.ofNat
  | none =>
    match runs.findSome? (·.image? c.toNat) with
    | some code => [Char.ofNat code]
    | none => [c]

/-- The small form of a character. -/
def lowerChar (c : Char) : List Char := counterpart lowerExpansions lowerRuns c

/-- The capital form of a character. -/
def upperChar (c : Char) : List Char := counterpart upperExpansions upperRuns c

/-! ## Whole texts -/

/-- Whether the first character that casing does not look through is a cased letter. -/
def meetsCased (cs : List Char) : Bool :=
  match cs.dropWhile isCaseIgnorable with
  | [] => false
  | c :: _ => isCased c

/-- A word ends where a cased letter comes before and none comes after; `before` is the text before
the place, last character first. -/
def endsWord (before after : List Char) : Bool := meetsCased before && !meetsCased after

/-- The small form of the rest of a text whose beginning, last character first, is `before`. -/
def lowerAfter (before : List Char) : List Char → List Char
  | [] => []
  | c :: rest =>
    -- Only the capital sigma has two small forms.
    let small := if c = 'Σ' then [if endsWord before rest then 'ς' else 'σ'] else lowerChar c
    small ++ lowerAfter (c :: before) rest

/-- The text in small letters. -/
def lower (s : List Char) : List Char := lowerAfter [] s

/-- The text in capital letters. -/
def upper (s : List Char) : List Char := s.flatMap upperChar

/-- Capitals for the characters that begin a word; `atStart` says whether the next one does. -/
def titleFrom (atStart : Bool) : List Char → List Char
  | [] => []
  | c :: rest => (if atStart then upperChar c else [c]) ++ titleFrom (!isAlphanumeric c) rest

/-- The text with the first character of every word in its capital form and all else kept. -/
def title (s : List Char) : List Char := titleFrom true s

end Stencil.Text
