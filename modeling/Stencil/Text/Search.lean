/-
Finding, splitting at and replacing a pattern in a text.

Matches are taken from the left and do not overlap. The empty pattern matches before every character
and at the end. Splitting and replacing are each defined by its own walk over the text, and that
`replace` is `split` followed by joining is a fact about both, not the definition of either.
-/

set_option autoImplicit false

namespace Stencil.Text

/-! ## At the start of a text -/

/-- What follows `pat` at the start of a text, if the text starts with it. -/
def after? : (pat : List Char) → List Char → Option (List Char)
  | [], s => some s
  | _ :: _, [] => none
  | p :: ps, c :: cs => if p = c then after? ps cs else none

/-- What follows a pattern is no longer than the text. -/
theorem length_le_of_after? {pat s rest : List Char} (h : after? pat s = some rest) :
    rest.length ≤ s.length := by
  induction pat generalizing s with
  | nil =>
    have : s = rest := by simpa [after?] using h
    exact Nat.le_of_eq (congrArg List.length this.symm)
  | cons p ps ih =>
    match s with
    | [] => simp [after?] at h
    | c :: cs =>
      by_cases hpc : p = c
      · rw [after?, if_pos hpc] at h
        exact Nat.le_succ_of_le (ih h)
      · rw [after?, if_neg hpc] at h
        exact absurd h (by simp)

/-! ## Anywhere in a text -/

/-- Whether `pat` occurs in a text. -/
def occurs (pat : List Char) : List Char → Bool
  | [] => pat.isEmpty
  | c :: rest => (after? pat (c :: rest)).isSome || occurs pat rest

/-- The pieces of a text around the non-empty pattern `p :: ps`; `piece`, last character first, is
what has been read of the first one. -/
def splitFrom (p : Char) (ps piece : List Char) : List Char → List (List Char)
  | [] => [piece.reverse]
  | c :: rest =>
    if p = c then
      match _h : after? ps rest with
      | some more => piece.reverse :: splitFrom p ps [] more
      | none => splitFrom p ps (c :: piece) rest
    else
      splitFrom p ps (c :: piece) rest
termination_by s => s.length
decreasing_by
  · exact Nat.lt_succ_of_le (length_le_of_after? _h)
  · exact Nat.lt_succ_self _
  · exact Nat.lt_succ_self _

/-- The pieces of `s` between the matches of `sep`. The empty separator cuts around every character
and leaves an empty piece at either end. -/
def split (sep s : List Char) : List (List Char) :=
  match sep with
  | [] => [] :: (s.map fun c => [c]) ++ [[]]
  | p :: ps => splitFrom p ps [] s

/-- The text with every match of the non-empty pattern `p :: ps` exchanged for `new`. -/
def replaceFrom (p : Char) (ps new : List Char) : List Char → List Char
  | [] => []
  | c :: rest =>
    if p = c then
      match _h : after? ps rest with
      | some more => new ++ replaceFrom p ps new more
      | none => c :: replaceFrom p ps new rest
    else
      c :: replaceFrom p ps new rest
termination_by s => s.length
decreasing_by
  · exact Nat.lt_succ_of_le (length_le_of_after? _h)
  · exact Nat.lt_succ_self _
  · exact Nat.lt_succ_self _

/-- The text with every match of `old` exchanged for `new`. The empty pattern matches before every
character and at the end. -/
def replace (old new s : List Char) : List Char :=
  match old with
  | [] => new ++ s.flatMap fun c => c :: new
  | p :: ps => replaceFrom p ps new s

end Stencil.Text
