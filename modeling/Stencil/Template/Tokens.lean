/-
The tokens of a whole source.

A trim marker removes the blanks of the neighbouring text and of nothing else. So every text is
trimmed at its start if the action before it says so and at its end if the action behind it does,
and a text that is then empty gives no token.
-/
import Stencil.Template.Segment

set_option autoImplicit false

namespace Stencil

/-- The token of a text between actions, trimmed at the sides that its neighbours ask for. A text
with nothing left gives none. -/
def RawText.tokens (t : RawText) (trimsStart trimsEnd : Bool) : List PlacedToken :=
  let blanks := if trimsStart then t.chars.takeWhile Text.isBlank else []
  let kept := t.chars.drop blanks.length
  let kept := if trimsEnd then Text.trimEnd kept else kept
  if kept.isEmpty then [] else [⟨.text (String.ofList kept), t.pos.past blanks⟩]

namespace Segments

/-- The tokens of a text, trimmed at its start on request, and of all that follows it. -/
def tokensFrom (trimsStart : Bool) (t : RawText) : List (Action × RawText) → List PlacedToken
  | [] => t.tokens trimsStart false
  | (a, next) :: more =>
    t.tokens trimsStart a.trimsBefore ++ a.tokens ++ tokensFrom a.trimsAfter next more

/-- The tokens of all texts and actions in order. -/
def tokens (s : Segments) : List PlacedToken := tokensFrom false s.first s.others

end Segments

/-- The tokens of a template source. -/
def tokensOf (source : String) : Except LexError (List PlacedToken) := do
  let segments ← Segments.ofSource source
  .ok segments.tokens

end Stencil
