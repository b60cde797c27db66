/-
The names of content sources.

One source is the root; the others have names, and the pages of a named source carry its name in
front. Sources are always taken in one order, the root first and then by name, so which of two
sources has the last word never depends on how they were listed.
-/
import Stencil.Files.Source
import Stencil.Table

set_option autoImplicit false

namespace Stencil

/-- The identity of a content source. -/
inductive SourceId where
  | root
  | named (name : String)
  deriving DecidableEq, Repr

namespace SourceId

/-- How the root is written. -/
def rootText : String := "root"

/-- The source that a text names: nothing and the word for the root both name the root. -/
def ofText (s : String) : SourceId := if s = "" ∨ s = rootText then .root else .named s

/-- The text of a source's name. -/
def text : SourceId → String
  | .root => rootText
  | .named name => name

/-- What stands in front of the pages of a source. -/
def qualifier? : SourceId → Option String
  | .root => none
  | .named name => some name

/-- Whether a source comes before another. -/
def comesBefore : SourceId → SourceId → Bool
  | .root, .named _ => true
  | .named a, .named b => SortKey.before a b
  | _, .root => false

/-- The root first, then by name. -/
instance : SortKey SourceId where
  before := comesBefore
  irrefl a := by
    cases a with
    | root => rfl
    | named name => exact SortKey.irrefl name
  trans a b c hab hbc := by
    match a, b, c with
    | .root, .named _, .named _ => rfl
    | .named x, .named y, .named z => exact SortKey.trans x y z hab hbc
    | .root, .root, _ => exact absurd hab (by simp [comesBefore])
    | .named _, .root, _ => exact absurd hab (by simp [comesBefore])
    | _, _, .root => exact absurd hbc (by simp [comesBefore])
  total a b hab := by
    match a, b with
    | .root, .root => exact absurd rfl hab
    | .root, .named _ => exact Or.inl rfl
    | .named _, .root => exact Or.inr rfl
    | .named x, .named y =>
      have hxy : x ≠ y := fun h => hab (by rw [h])
      exact SortKey.total x y hxy

/-- The place of a source relative to another. -/
def compare (a b : SourceId) : Ordering :=
  if SortKey.before a b then .lt else if SortKey.before b a then .gt else .eq

end SourceId

/-- The sources of a site, one for each name, in their order. -/
abbrev Sources := Table SourceId Source

end Stencil
