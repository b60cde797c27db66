/-
From characters to tokens.

What begins a key looks like any other node until its colon is reached. A draft therefore remembers,
for every flow mapping that is open and for the block around them, the last place at which a key may
have begun, and puts the tokens of a key in there once its colon is seen. A key has to stand on one
line and must not be longer than 1024 characters. Where a line begins in the column of its block, a
key has to begin.

Lists are no part of settings, and their marks are refused.
-/
import Stencil.Yaml.Block
import Stencil.Yaml.Plain
import Stencil.Yaml.Token

set_option autoImplicit false

namespace Stencil

namespace Yaml

/-- A place at which a key may have begun. -/
structure KeyPlace where
  /-- The number of tokens before it. -/
  before : Nat
  line : Nat
  column : Nat
  /-- Whether nothing but a key may begin there. -/
  isRequired : Bool

/-- Whether what begins at a place can no longer be a key when the cursor has come to `c`. -/
def KeyPlace.isPassed (k : KeyPlace) (c : Cursor) : Bool :=
  k.line < c.line || k.column + 1024 < c.column

/-- What has been read of a file. -/
structure Draft where
  cursor : Cursor
  /-- The tokens, last first. -/
  tokens : List Token
  /-- The columns of the block mappings that are open, innermost first. -/
  indents : List Nat
  /-- The last place of a key in the innermost flow mapping, or in the block if none is open. -/
  place : Option KeyPlace
  /-- The last places of keys around it, innermost first; their number is that of the flow mappings
  that are open. -/
  outer : List (Option KeyPlace)
  /-- Whether a key may begin here. -/
  allowsKey : Bool

namespace Draft

/-- The draft before the first character. -/
def start (s : List Char) : Draft := ⟨.start s, [], [], none, [], true⟩

/-- Whether a flow mapping is open. -/
def isInFlow (d : Draft) : Bool := !d.outer.isEmpty

/-- The draft with one more token. -/
def add (d : Draft) (t : Token) : Draft := { d with tokens := t :: d.tokens }

/-- The draft with one more token, which `n` characters write. -/
def addMark (d : Draft) (t : Token) (n : Nat) : Draft :=
  { d.add t with cursor := d.cursor.drop n }

/-! ## Between tokens -/

/-- The place behind blanks, comments and line ends, and whether a key may begin there. Behind a
line end it may, unless a flow mapping is open; where it may, a tab is no blank. -/
def gapFrom (inFlow : Bool) :
    (inComment allowsKey : Bool) → (line column : Nat) → List Char → Bool × Cursor
  | _, allowsKey, line, column, [] => (allowsKey, ⟨[], line, column⟩)
  | inComment, allowsKey, line, column, c :: rest =>
    if isBreak c then gapFrom inFlow false (allowsKey || !inFlow) (line + 1) 0 rest
    else if inComment || c == '#' then gapFrom inFlow true allowsKey line (column + 1) rest
    else if c == ' ' || (c == '\t' && (inFlow || !allowsKey)) || (c == byteOrderMark && column == 0)
    then gapFrom inFlow false allowsKey line (column + 1) rest
    else (allowsKey, ⟨c :: rest, line, column⟩)

/-- Moves on to the next token. -/
def toToken (d : Draft) : Draft :=
  let (allowsKey, cursor) :=
    gapFrom d.isInFlow false d.allowsKey d.cursor.line d.cursor.column d.cursor.rest
  { d with allowsKey, cursor }

/-! ## Places of keys -/

/-- Gives up the last place of a key. -/
def forget? (d : Draft) : Option Draft :=
  if d.place.any KeyPlace.isRequired then none else some { d with place := none }

/-- Gives up the places of keys that are passed. -/
def forgetPassed? (d : Draft) : Option Draft :=
  let isPassed (k : KeyPlace) : Bool := k.isPassed d.cursor
  if (d.place :: d.outer).any fun p => p.any fun k => isPassed k && k.isRequired then none
  else
    let keep (p : Option KeyPlace) : Option KeyPlace := p.filter fun k => !isPassed k
    some { d with place := keep d.place, outer := d.outer.map keep }

/-- Remembers that a key may begin here. -/
def note? (d : Draft) : Option Draft :=
  if d.allowsKey then do
    let e ← d.forget?
    let isRequired := !d.isInFlow && d.indents.head? == some d.cursor.column
    some { e with place := some ⟨d.tokens.length, d.cursor.line, d.cursor.column, isRequired⟩ }
  else some d

/-- The draft behind a token that may be a key or a part of one. -/
def afterNode (d : Draft) (t : Token) (c : Cursor) : Draft :=
  { d.add t with cursor := c, allowsKey := false }

/-! ## Indentation -/

/-- Ends the innermost block mappings whose columns have a property. In a flow mapping indentation
does not count. -/
def close (d : Draft) (p : Nat → Bool) : Draft :=
  if d.isInFlow then d
  else
    let closed := d.indents.takeWhile p
    { d with
      indents := d.indents.drop closed.length
      tokens := closed.map (fun _ => .blockEnd) ++ d.tokens }

/-- Whether a key in the given column begins a block mapping. -/
def opensBlock (d : Draft) (column : Nat) : Bool := !d.isInFlow && d.indents.head?.all (· < column)

/-- The draft with `marks` put in behind the first `before` tokens, and in front of them the beginning
of a block mapping, if a key in the given column begins one. -/
def putIn (d : Draft) (before column : Nat) (marks : List Token) : Draft :=
  let later := d.tokens.take (d.tokens.length - before)
  let earlier := d.tokens.drop (d.tokens.length - before)
  if d.opensBlock column then
    { d with
      indents := column :: d.indents
      tokens := later ++ marks ++ .blockStart :: earlier }
  else { d with tokens := later ++ marks ++ earlier }

/-! ## Tokens -/

/-- Reads a mark between documents. -/
def documentMark? (d : Draft) (t : Token) : Option Draft := do
  let e ← (d.close fun _ => true).forget?
  some { e.addMark t 3 with allowsKey := false }

/-- Reads a directive. -/
def directive? (d : Draft) : Option Draft := do
  let e ← (d.close fun _ => true).forget?
  let (directive, following) ← Directive.read? e.cursor
  some (e.afterNode (.directive directive) following)

/-- Reads the beginning of a flow mapping. -/
def flowStart? (d : Draft) : Option Draft := do
  let e ← d.note?
  some { e.addMark .flowStart 1 with place := none, outer := e.place :: e.outer, allowsKey := true }

/-- Reads the end of a flow mapping. -/
def flowEnd? (d : Draft) : Option Draft := do
  let e ← d.forget?
  some { e.addMark .flowEnd 1 with
    place := e.outer.head?.getD none
    outer := e.outer.tail
    allowsKey := false }

/-- Reads a comma. -/
def comma? (d : Draft) : Option Draft := do
  let e ← d.forget?
  some { e.addMark .comma 1 with allowsKey := true }

/-- Reads a question mark before a key. -/
def key? (d : Draft) : Option Draft :=
  if d.isInFlow || d.allowsKey then do
    let e ← (d.putIn d.tokens.length d.cursor.column []).forget?
    some { e.addMark .key 1 with allowsKey := !d.isInFlow }
  else none

/-- Reads the colon before a value. -/
def value? (d : Draft) : Option Draft :=
  match d.place with
  | some k =>
    let e := d.putIn k.before k.column [.key]
    some { e.addMark .value 1 with place := none, allowsKey := false }
  | none =>
    if d.isInFlow || d.allowsKey then
      let e := d.putIn d.tokens.length d.cursor.column []
      some { e.addMark .value 1 with allowsKey := !d.isInFlow }
    else none

/-- Whether a character may follow a name. -/
def endsName (s : List Char) : Bool :=
  endsWord s || s.head?.any fun c => ['?', ':', ',', ']', '\x7d', '%', '@', '\x60'].contains c

/-- Reads a name behind its mark. -/
def name? (d : Draft) (token : String → Token) : Option Draft := do
  let e ← d.note?
  let name := e.cursor.next.rest.takeWhile isNameChar
  let following := e.cursor.next.drop name.length
  if name.isEmpty ∨ !endsName following.rest then none
  else some (e.afterNode (token (String.ofList name)) following)

/-- Reads a tag. -/
def tag? (d : Draft) : Option Draft := do
  let e ← d.note?
  let (tag, following) ← Tag.read? e.isInFlow e.cursor
  some (e.afterNode (.tag tag) following)

/-- Reads a scalar in quotation marks. -/
def quoted? (d : Draft) (q : Quotation) : Option Draft := do
  let e ← d.note?
  let (text, following) ← Yaml.quoted? q e.cursor
  some (e.afterNode (.scalar false text) following)

/-- Reads a plain scalar. -/
def plain? (d : Draft) : Option Draft := do
  let e ← d.note?
  let p ← Plain.read? e.isInFlow (e.indents.head?.elim 0 (· + 1)) e.cursor
  some { e.afterNode (.scalar true p.text) p.next with allowsKey := p.endsLine }

/-- Reads a block scalar. -/
def block? (d : Draft) (folds : Bool) : Option Draft := do
  let e ← d.forget?
  let (text, following) ← blockScalar? folds e.indents.head? e.cursor
  some { e.add (.scalar false text) with cursor := following, allowsKey := true }

/-- Reads the token that begins here with the character `c`, `rest` being the text behind it. -/
def token? (d : Draft) (c : Char) (rest : List Char) : Option Draft :=
  if d.cursor.column = 0 ∧ c = '%' then d.directive?
  else if d.cursor.isAtMark '-' then d.documentMark? .documentStart
  else if d.cursor.isAtMark '.' then d.documentMark? .documentEnd
  else if c = '[' ∨ c = ']' ∨ (c = '-' ∧ endsWord rest) then none
  else if c = '\x7b' then d.flowStart?
  else if c = '\x7d' then d.flowEnd?
  else if c = ',' then d.comma?
  else if c = '?' ∧ (d.isInFlow ∨ endsWord rest) then d.key?
  else if c = ':' ∧ (d.isInFlow ∨ endsWord rest) then d.value?
  else if c = '*' then d.name? .alias
  else if c = '&' then d.name? .anchor
  else if c = '!' then d.tag?
  else if (c = '|' ∨ c = '>') ∧ !d.isInFlow then d.block? (c == '>')
  else if c = '\'' then d.quoted? .single
  else if c = '"' then d.quoted? .double
  else if startsPlain d.isInFlow (c :: rest) then d.plain?
  else none

/-- Reads the tokens that are left. The fuel exceeds the number of characters left. -/
def run? : (fuel : Nat) → Draft → Option Draft
  | 0, _ => none
  | fuel + 1, d => do
    let e ← d.toToken.forgetPassed?
    let body := e.close (e.cursor.column < ·)
    match body.cursor.rest with
    | [] => (body.close fun _ => true).forget?
    | c :: rest => (← body.token? c rest).run? fuel

end Draft

/-- The tokens of a text. -/
def tokens? (s : List Char) : Option (List Token) :=
  (Draft.run? (s.length + 1) (.start s)).map fun d => d.tokens.reverse

end Yaml

end Stencil
