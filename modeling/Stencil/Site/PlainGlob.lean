/-
A matcher of names with stars and escaped characters.

A star stands for any run of characters, a character in brackets for itself, and so does every
character that is not special. Texts with anything else in them, such as two stars in a row or more
than one character in brackets, are no patterns of this matcher.
-/
import Stencil.Site.Glob

set_option autoImplicit false

namespace Stencil

/-- A piece of a pattern. -/
inductive GlobPiece where
  | star
  /-- A character in brackets. -/
  | bracketed (c : Char)
  | char (c : Char)
  deriving DecidableEq, Repr

namespace GlobPiece

/-! ## Patterns as text -/

/-- The characters that mean something else than themselves. -/
def isSpecial (c : Char) : Bool := c == '*' || c == '?' || c == '[' || c == ']'

/-- A piece as it is written. -/
def text : GlobPiece → List Char
  | .star => ['*']
  | .bracketed c => ['[', c, ']']
  | .char c => [c]

/-- The piece that stands for a character and nothing else. -/
def literal (c : Char) : GlobPiece := if isSpecial c then .bracketed c else .char c

/-- The pieces of a pattern. An exclamation mark in brackets would stand for what is not in them. -/
def read? : List Char → Option (List GlobPiece)
  | [] => some []
  | c :: rest =>
    if c = '*' then
      if rest.head? = some '*' then none else (read? rest).map (.star :: ·)
    else if c = '[' then
      match rest with
      | d :: close :: behind =>
        if close = ']' ∧ d ≠ '!' then (read? behind).map (.bracketed d :: ·) else none
      | _ => none
    else if isSpecial c then none
    else (read? rest).map (.char c :: ·)

/-! ## Matching -/

/-- Whether something else than the character itself can match it. At the start of a name, and behind
a slash, a point is one that hides the name. -/
def isFree (options : MatchOptions) (atStart : Bool) (c : Char) : Bool :=
  !(options.requireLiteralSeparator && c == '/') &&
    !(options.requireLiteralLeadingDot && atStart && c == '.')

/-- Whether two characters are the same under some options. -/
def sameChar (options : MatchOptions) (c d : Char) : Bool :=
  c == d || (!options.caseSensitive && c.toLower == d.toLower)

/-- Whether what is left of a text behind some run of its first characters satisfies `rest`. -/
def matchesRun (options : MatchOptions) (rest : Bool → List Char → Bool) :
    (atStart : Bool) → List Char → Bool
  | atStart, [] => rest atStart []
  | atStart, c :: cs =>
    rest atStart (c :: cs) || (isFree options atStart c && matchesRun options rest (c == '/') cs)

/-- Whether pieces match the rest of a name. -/
def matchesFrom (options : MatchOptions) : List GlobPiece → (atStart : Bool) → List Char → Bool
  | [], _, s => s.isEmpty
  | .star :: rest, atStart, s => matchesRun options (matchesFrom options rest) atStart s
  | .bracketed d :: rest, atStart, c :: cs =>
    isFree options atStart c && sameChar options c d && matchesFrom options rest (c == '/') cs
  | .char d :: rest, _, c :: cs => sameChar options c d && matchesFrom options rest (c == '/') cs
  | _ :: _, _, [] => false

end GlobPiece

/-- The matcher for patterns of stars and escaped characters. -/
def Glob.plain : Glob where
  pattern? text := (GlobPiece.read? text.toList).map fun pieces options name =>
    GlobPiece.matchesFrom options pieces true name.toList
  escape text := String.ofList (text.toList.flatMap fun c => (GlobPiece.literal c).text)

end Stencil
