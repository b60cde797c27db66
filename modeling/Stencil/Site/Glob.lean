/-
Names against patterns.

How patterns are written and what they match is settled by a matcher of names, and a site works with
any. It asks the matcher for the text in which nothing is special, for the pattern that a text stands
for, and whether a name matches under some options.
-/

set_option autoImplicit false

namespace Stencil

/-- The options of a match. -/
structure MatchOptions where
  /-- Whether a letter differs from the same letter in the other case. -/
  caseSensitive : Bool
  /-- Whether only a slash of the pattern matches a slash. -/
  requireLiteralSeparator : Bool
  /-- Whether only a point of the pattern matches a point at the start of a name. -/
  requireLiteralLeadingDot : Bool
  deriving DecidableEq, Repr

/-- A matcher of names. A pattern is given by what it matches. -/
structure Glob where
  /-- The pattern that a text stands for, if it stands for one. -/
  pattern? : (text : String) → Option (MatchOptions → String → Bool)
  /-- The text that stands for nothing but a text itself. -/
  escape : String → String

end Stencil
