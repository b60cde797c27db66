/-
Block scalars.

A block scalar is all lines behind its header that are indented enough. In the literal style they
are kept, in the folded style the ends of lines that do not begin with a blank are joined. The
header may say how far the lines are indented, which else the first of them shows, and what becomes
of the line ends behind the last.
-/
import Stencil.Yaml.LineBreaks

set_option autoImplicit false

namespace Stencil

namespace Yaml

/-! ## Headers -/

/-- What becomes of the line ends behind the last line. -/
inductive Chomping where
  | strip
  /-- Only the end of the last line itself is kept. -/
  | clip
  | keep

/-- The sign for a treatment of the last line ends. -/
def Chomping.ofSign? (c : Char) : Option Chomping :=
  List.lookup c [('-', .strip), ('+', .keep)]

/-- What the header of a block scalar says. -/
structure BlockHeader where
  chomping : Chomping
  /-- By how much the lines are indented more than what they belong to. -/
  indentation : Option Nat

namespace BlockHeader

/-- The indentation that a digit gives. -/
def width? (c : Char) : Option Nat :=
  if '1' ≤ c && c ≤ '9' then some (c.toNat - '0'.toNat) else none

/-- The header that comes first and what follows it. The sign and the digit may stand in either
order. -/
def read (s : List Char) : BlockHeader × List Char :=
  match s.head?.bind Chomping.ofSign?, s.head?.bind width? with
  | some chomping, _ =>
    match s.tail.head?.bind width? with
    | some n => (⟨chomping, some n⟩, s.drop 2)
    | none => (⟨chomping, none⟩, s.tail)
  | none, some n =>
    match s.tail.head?.bind Chomping.ofSign? with
    | some chomping => (⟨chomping, some n⟩, s.drop 2)
    | none => (⟨.clip, some n⟩, s.tail)
  | none, none => (⟨.clip, none⟩, s)

end BlockHeader

/-! ## Lines -/

/-- Blank lines that have been passed. -/
structure BlankLines where
  breaks : List Char
  /-- The largest indentation seen, the line behind them included. -/
  width : Nat
  /-- The first character that is neither indentation nor the end of a blank line. -/
  next : Cursor

/-- Passes blank lines and the indentation behind them, `before` being what has been passed already.
Of a line no more than `limit` columns are indentation; a tab may not be among them. The fuel
exceeds the number of lines left. -/
def BlankLines.from? (limit : Option Nat) : (fuel : Nat) → (before : BlankLines) → Option BlankLines
  | 0, _ => none
  | fuel + 1, before =>
    let spaces := (before.next.rest.takeWhile (· == ' ')).length
    let body := before.next.drop (limit.elim spaces fun n => min spaces (n - before.next.column))
    let width := max before.width body.column
    if body.rest.head? = some '\t' ∧ limit.all (body.column < ·) then none
    else
      match body.rest.head?.filter isBreak with
      | some b => from? limit fuel ⟨before.breaks ++ [b], width, body.next⟩
      | none => some ⟨before.breaks, width, body⟩

/-- Passes the blank lines that come first. -/
def BlankLines.read? (limit : Option Nat) (c : Cursor) : Option BlankLines :=
  from? limit (c.rest.length + 1) ⟨[], 0, c⟩

/-- A block scalar of which some lines have been read. -/
structure BlockText where
  /-- The text of these lines, last character first. -/
  acc : List Char
  /-- The line ends behind the last line. -/
  breaks : LineBreaks
  /-- Whether the last line begins with a blank. -/
  isIndented : Bool
  next : Cursor

namespace BlockText

/-- The text with one more line, last character first. The end of the line before it is folded if
neither begins with a blank. -/
def add (folds : Bool) (b : BlockText) (line : List Char) : List Char :=
  let between :=
    if folds && !b.isIndented && !line.head?.any isBlank then b.breaks.folded else b.breaks.kept
  line.reverse ++ (between.reverse ++ b.acc)

/-- Reads the lines that are indented by `indent`. The fuel exceeds their number. -/
def lines? (folds : Bool) (indent : Nat) : (fuel : Nat) → BlockText → Option BlockText
  | 0, _ => none
  | fuel + 1, b =>
    if b.next.column = indent ∧ b.next.rest ≠ [] then do
      let line := b.next.rest.takeWhile (!isBreak ·)
      let behind := b.next.drop line.length
      let blank ← BlankLines.read? (some indent) behind.next
      lines? folds indent fuel
        ⟨b.add folds line, ⟨behind.rest.head?, blank.breaks⟩, line.head?.any isBlank, blank.next⟩
    else some b

/-- The text with what is kept of the last line ends. -/
def chomp (b : BlockText) : Chomping → List Char
  | .strip => b.acc.reverse
  | .clip => b.acc.reverse ++ b.breaks.first.toList
  | .keep => b.acc.reverse ++ b.breaks.kept

end BlockText

/-- Reads a block scalar whose indicator comes first and that belongs to a block indented by
`outer`, if to any. -/
def blockScalar? (folds : Bool) (outer : Option Nat) (c : Cursor) : Option (String × Cursor) := do
  let (header, rest) := BlockHeader.read c.next.rest
  let body ← (c.next.upTo rest).nextLine?
  let blank ← BlankLines.read? (header.indentation.map (outer.getD 0 + ·)) body
  let least := outer.elim 1 (· + 1)
  let indent := header.indentation.elim (max blank.width least) (outer.getD 0 + ·)
  let b ← BlockText.lines? folds indent (c.rest.length + 1)
    ⟨[], ⟨none, blank.breaks⟩, false, blank.next⟩
  some (String.ofList (b.chomp header.chomping), b.next)

end Yaml

end Stencil
