/-
Slugs: a text reduced to what reads well in an address.

The text is lowered character by character, its words are the runs of letters and digits, and the
slug is the words with one hyphen between neighbours. Saying it with words, not with a hyphen that
is written and later taken back, makes the shape of the result plain: no run is empty and no hyphen
stands at an end. The way of writing it with such a hyphen stands behind it.
-/
import Stencil.Text.Alphanumeric
import Stencil.Text.Case

set_option autoImplicit false

namespace Stencil.Text

/-- The word being read, if it has begun; `word` holds it last character first. -/
def finishedWord : List Char → List (List Char)
  | [] => []
  | c :: cs => [(c :: cs).reverse]

/-- The words of a text of which `word`, last character first, has been read so far. -/
def wordsFrom (word : List Char) : List Char → List (List Char)
  | [] => finishedWord word
  | c :: rest =>
    if isAlphanumeric c then wordsFrom (c :: word) rest else finishedWord word ++ wordsFrom [] rest

/-- The longest runs of letters and digits, in order. -/
def words (s : List Char) : List (List Char) := wordsFrom [] s

/-- The words of the lowered text, joined by hyphens. -/
def slug (s : List Char) : List Char :=
  List.intercalate ['-'] (words (s.flatMap lowerChar))

/-! ## From left to right

The slug can also be written while the text is read, a hyphen behind each word as soon as the word is
over, and the last one taken back. -/

/-- What is written for one more character, `written` being what has been written, last character
first. -/
def writeNext (written : List Char) (c : Char) : List Char :=
  if isAlphanumeric c then c :: written
  else if written ≠ [] ∧ written.head? ≠ some '-' then '-' :: written
  else written

/-- What is written for a lowered text, without the hyphens at the end. -/
def writtenSlug (s : List Char) : List Char :=
  (((s.flatMap lowerChar).foldl writeNext []).dropWhile (· == '-')).reverse

end Stencil.Text
