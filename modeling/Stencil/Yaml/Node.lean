/-
Nodes of a YAML file.

A file is one document, whose root is a node: a scalar, a mapping, or an alias. An anchor gives its
node a number, which is the number of names given before; so a name that is given again shares its
number with the next new one. An alias is the number that its name has where it stands, and it means
the last node of the document with this number.
-/
import Stencil.Yaml.Tokens

set_option autoImplicit false

namespace Stencil

namespace Yaml

/-! ## Nodes -/

/-- A scalar. -/
structure Scalar where
  /-- Whether it is written without quotation marks and not as a block. -/
  isPlain : Bool
  tag : Option String
  text : String

/-- What stands where nothing is written. -/
def Scalar.absent : Scalar := ⟨true, none, ""⟩

/-- Whether a scalar is nothing. -/
def Scalar.isAbsent (s : Scalar) : Bool := s.isPlain && s.text.isEmpty

/-- A node. -/
inductive Node where
  | scalar (s : Scalar)
  | map (entries : List (Node × Node))
  | alias (number : Nat)

/-! ## Anchors -/

/-- The anchors of a document. -/
structure Anchors where
  /-- The number of every name. -/
  numbers : List (String × Nat)
  /-- The nodes with their numbers, last first. Of a mapping only the place is kept. -/
  targets : List (Nat × Option Scalar)

/-- No anchors. -/
def Anchors.empty : Anchors := ⟨[], []⟩

/-- The anchors with one more, if a name is given. -/
def Anchors.add (a : Anchors) (target : Option Scalar) : Option String → Anchors
  | none => a
  | some name =>
    let number := a.numbers.length
    ⟨(name, number) :: a.numbers.filter (·.1 != name), (number, target) :: a.targets⟩

/-! ## Reading nodes -/

/-- What is left to read of a document, and the anchors behind it. -/
structure Reading where
  tokens : List Token
  anchors : Anchors

/-- What may stand before a node. -/
structure Properties where
  anchor : Option String
  tag : Option Tag

/-- The properties that come first, each once and in either order, and what follows them. -/
def Properties.split : List Token → Properties × List Token
  | .anchor a :: .tag t :: rest => (⟨some a, some t⟩, rest)
  | .tag t :: .anchor a :: rest => (⟨some a, some t⟩, rest)
  | .anchor a :: rest => (⟨some a, none⟩, rest)
  | .tag t :: rest => (⟨none, some t⟩, rest)
  | tokens => (⟨none, none⟩, tokens)

/-- The text of the tag among properties. -/
def Properties.tagText? (handles : List (String × String)) (p : Properties) :
    Option (Option String) :=
  match p.tag with
  | none => some none
  | some t => (t.text? handles).map some

/-- A reader of one node. -/
abbrev NodeReader := Reading → Option (Node × Reading)

/-- Reads a node unless one of the tokens `ends` comes first, where nothing is written. -/
def nodeBefore (node : NodeReader) (ends : List Token) (r : Reading) : Option (Node × Reading) :=
  match r.tokens with
  | [] => none
  | t :: _ => if ends.contains t then some (.scalar .absent, r) else node r

/-- Reads a key, whose mark has been read, and its value, if it has one. A key ends before its value
and before the tokens `ends`. -/
def entry? (node : NodeReader) (ends : List Token) (inBlock : Bool) (r : Reading) :
    Option ((Node × Node) × Reading) := do
  let keyEnds := if inBlock then .key :: ends else ends
  let (key, behind) ← nodeBefore node (.value :: keyEnds) r
  match behind.tokens with
  | .value :: rest =>
    let valueEnds := if inBlock then .value :: keyEnds else keyEnds
    let (value, following) ← nodeBefore node valueEnds { behind with tokens := rest }
    some ((key, value), following)
  | _ => some ((key, .scalar .absent), behind)

mutual

/-- Reads a node. The fuel is twice the number of tokens left. -/
def node? (handles : List (String × String)) : (fuel : Nat) → NodeReader
  | 0, _ => none
  | fuel + 1, r =>
    match r.tokens with
    | .alias name :: rest =>
      (r.anchors.numbers.lookup name).map fun number => (.alias number, { r with tokens := rest })
    | _ => do
      let (properties, body) := Properties.split r.tokens
      let tag ← properties.tagText? handles
      match body with
      | .scalar isPlain text :: rest =>
        -- The bare tag leaves a scalar as it is.
        let s : Scalar := ⟨isPlain, tag.filter (· != Tag.bare.suffix), text⟩
        some (.scalar s, ⟨rest, r.anchors.add (some s) properties.anchor⟩)
      | .flowStart :: rest => do
        let (entries, following) ← flowEntries? handles fuel true
          ⟨rest, r.anchors.add none properties.anchor⟩
        some (.map entries, following)
      | .blockStart :: rest => do
        let (entries, following) ← blockEntries? handles fuel
          ⟨rest, r.anchors.add none properties.anchor⟩
        some (.map entries, following)
      | _ =>
        if properties.anchor.isSome ∨ properties.tag.isSome then
          let s : Scalar := ⟨true, tag, ""⟩
          some (.scalar s, ⟨body, r.anchors.add (some s) properties.anchor⟩)
        else none

/-- Reads the entries of a block mapping up to its end. -/
def blockEntries? (handles : List (String × String)) :
    (fuel : Nat) → Reading → Option (List (Node × Node) × Reading)
  | 0, _ => none
  | fuel + 1, r =>
    match r.tokens with
    | .blockEnd :: rest => some ([], { r with tokens := rest })
    | .key :: rest => do
      let (e, following) ← entry? (node? handles fuel) [.blockEnd] true { r with tokens := rest }
      let (more, last) ← blockEntries? handles fuel following
      some (e :: more, last)
    | _ => none

/-- Reads the entries of a flow mapping up to its end. A comma stands before every entry but the
first, and may stand before the end. -/
def flowEntries? (handles : List (String × String)) :
    (fuel : Nat) → (isFirst : Bool) → Reading → Option (List (Node × Node) × Reading)
  | 0, _, _ => none
  | fuel + 1, isFirst, r => do
    let body ← match isFirst, r.tokens with
      | true, tokens => some tokens
      | false, .comma :: rest => some rest
      | false, tokens => if tokens.head? = some .flowEnd then some tokens else none
    match body with
    | .flowEnd :: rest => some ([], { r with tokens := rest })
    | .key :: rest => do
      let (e, following) ← entry? (node? handles fuel) [.comma, .flowEnd] false
        { r with tokens := rest }
      let (more, last) ← flowEntries? handles fuel false following
      some (e :: more, last)
    | _ => do
      -- A node that is no key is a key without a value.
      let (key, following) ← node? handles fuel { r with tokens := body }
      let (more, last) ← flowEntries? handles fuel false following
      some ((key, .scalar .absent) :: more, last)

end

/-! ## Documents -/

/-- A document. -/
structure Document where
  /-- The root, unless the file says nothing at all. -/
  root : Option Node
  anchors : Anchors

namespace Document

/-- The scalar that a node is or means. -/
def scalar? (d : Document) : Node → Option Scalar
  | .scalar s => some s
  | .alias number => (d.anchors.targets.lookup number).join
  | .map _ => none

/-- The text of a node that is a scalar. -/
def text? (d : Document) (n : Node) : Option String := (d.scalar? n).map Scalar.text

/-- Reads the root, behind which only marks of the end may follow. -/
def root? (handles : List (String × String)) (tokens : List Token) : Option Document := do
  let (root, following) ← node? handles (2 * tokens.length + 2) ⟨tokens, .empty⟩
  if following.tokens.all (· == .documentEnd) then some ⟨some root, following.anchors⟩ else none

/-- The document that tokens write. With directives it has to begin with its mark, and behind the
mark the root need not be written. -/
def ofTokens? (tokens : List Token) : Option Document := do
  let directives := tokens.takeWhile (·.directive?.isSome)
  let handles ← Directive.handles? (directives.filterMap Token.directive?)
  match tokens.drop directives.length with
  | .documentStart :: rest =>
    if rest.all (· == .documentEnd) then some ⟨some (.scalar .absent), .empty⟩
    else root? handles rest
  | [] => if directives.isEmpty then some ⟨none, .empty⟩ else none
  | rest => if directives.isEmpty then root? handles rest else none

/-- The document that a file holds. -/
def read? (s : String) : Option Document :=
  if s.toList.all isAllowed then (tokens? (unifyLineEnds s.toList)).bind ofTokens? else none

end Document

end Yaml

end Stencil
