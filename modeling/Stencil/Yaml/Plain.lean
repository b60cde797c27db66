/-
Plain scalars.

A plain scalar is written without quotation marks. It ends before a comment, before a colon that
ends a key, at the marks of flow collections if it stands in one, and where a line is indented too
little.
-/
import Stencil.Yaml.LineBreaks

set_option autoImplicit false

namespace Stencil

namespace Yaml

/-- The characters with which no plain scalar begins. -/
def isIndicator (c : Char) : Bool :=
  isFlowMark c
    || ['-', '?', ':', '#', '&', '*', '!', '|', '>', '\'', '"', '%', '@', '\x60'].contains c

/-- Whether a plain scalar begins with the given characters. -/
def startsPlain (inFlow : Bool) : List Char → Bool
  | [] => false
  | c :: rest =>
    !(isWhite c || isIndicator c)
      || (c == '-' && !rest.head?.any isBlank)
      || ((c == '?' || c == ':') && !inFlow && !endsWord rest)

/-- A plain scalar that has been read. -/
structure Plain where
  text : String
  /-- Whether what follows is on a later line. -/
  endsLine : Bool
  next : Cursor

namespace Plain

/-- The characters up to the next white space or the end of the scalar. In a flow collection a colon
right before a mark is refused. -/
def word? (inFlow : Bool) : List Char → Option (List Char)
  | [] => some []
  | c :: rest =>
    if isWhite c then some []
    else if inFlow && c == ':' && rest.head?.any (fun d => d == '?' || isFlowMark d) then none
    else if (c == ':' && endsWord rest) || (inFlow && isFlowMark c) then some []
    else (word? inFlow rest).map (c :: ·)

/-- Whether a scalar that has to be indented by `indent` ends at a place where no word begins it. -/
def endsAt (inFlow : Bool) (indent : Nat) (c : Cursor) : Bool :=
  (!inFlow && c.column < indent) || c.isAtDocumentMark || c.rest.head? == some '#'

/-- The scalar of which `acc`, last character first, and white space behind it have been read. The
fuel exceeds the number of words left. -/
def readFrom (inFlow : Bool) (indent : Nat) :
    (fuel : Nat) → (acc gap : List Char) → Cursor → Option Plain
  | 0, _, _, _ => none
  | fuel + 1, acc, gap, c => do
    let word ← word? inFlow c.rest
    if word.isEmpty then
      some ⟨String.ofList acc.reverse, gap.any isBreak, c⟩
    else
      let more := word.reverse ++ ((foldGap gap).reverse ++ acc)
      let behind := c.drop word.length
      let newGap := gapOf behind.rest
      let following := behind.drop newGap.length
      if hasEarlyTab indent none newGap then none
      else if endsAt inFlow indent following then
        some ⟨String.ofList more.reverse, newGap.any isBreak, following⟩
      else readFrom inFlow indent fuel more newGap following

/-- Reads a plain scalar. -/
def read? (inFlow : Bool) (indent : Nat) (c : Cursor) : Option Plain :=
  readFrom inFlow indent (c.rest.length + 2) [] [] c

end Plain

end Yaml

end Stencil
