/-
Cutting a text at a separator.

Four helpers look for a pattern in a text, each with a walk of its own: one cuts the text at the
matches, one joins what has been cut, one exchanges the matches for another text, and one only asks
whether there is a match. They have to take the same matches, and which ones these are is settled
here: a cut takes every match as far to the left as it can, so no match begins in a piece, and a text
has one such cut. What the walks do with a match and without one then follows the pieces of the cut.

The empty separator matches everywhere and has no cut of this kind. Its pieces are the single
characters between two empty ones.
-/
import Mathlib.Data.List.Infix
import Stencil.Function.Helper
import Stencil.Proofs.Spellings

set_option autoImplicit false

namespace Stencil

namespace Text

variable {p c : Char} {ps pat sep front piece rest s : List Char} {pieces : List (List Char)}

/-! ## Matches -/

theorem after?_eq_some_iff : after? pat s = some rest ↔ s = pat ++ rest := by
  induction pat generalizing s with
  | nil => simp [after?]
  | cons p ps ih =>
    cases s with
    | nil => simp [after?]
    | cons c cs =>
      rw [after?, List.cons_append, List.cons.injEq]
      by_cases hpc : p = c
      · rw [if_pos hpc, ih]
        simp [hpc]
      · rw [if_neg hpc]
        simp [Ne.symm hpc]

theorem after?_eq_none_iff : after? pat s = none ↔ ¬ pat <+: s := by
  rw [← isSome_after?_iff, Bool.not_eq_true, Option.isSome_eq_false_iff, Option.isNone_iff_eq_none]

/-- No match begins before the first one, even where the two would overlap. -/
theorem not_prefix_of_first (h : ¬ sep <:+: (c :: front) ++ sep.dropLast) :
    ¬ sep <+: (c :: front) ++ sep ++ rest := by
  intro hmatch
  apply h
  have hbehind : (c :: front) ++ sep.dropLast <+: (c :: front) ++ sep ++ rest := by
    rw [List.append_assoc, List.prefix_append_right_inj]
    exact (List.dropLast_prefix sep).trans (List.prefix_append sep rest)
  have hlength : sep.length ≤ ((c :: front) ++ sep.dropLast).length := by
    rw [List.length_append, List.length_cons, List.length_dropLast]
    omega
  exact (List.prefix_of_prefix_length_le hmatch hbehind hlength).isInfix

/-- A pattern that occurs in a text has a first match. -/
theorem exists_first (hsep : sep ≠ []) (h : sep <:+: s) :
    ∃ front rest, s = front ++ sep ++ rest ∧ ¬ sep <:+: front ++ sep.dropLast := by
  -- A match takes as many characters as the separator has.
  have hlong : ¬ sep <:+: sep.dropLast := by
    intro hinfix
    have hlength := hinfix.length_le
    have hpos : 0 < sep.length := List.length_pos_iff.2 hsep
    rw [List.length_dropLast] at hlength
    omega
  induction s with
  | nil => exact absurd (List.infix_nil.1 h) hsep
  | cons c cs ih =>
    by_cases hstart : sep <+: c :: cs
    · obtain ⟨rest, hrest⟩ := hstart
      exact ⟨[], rest, by rw [List.nil_append, hrest], hlong⟩
    · obtain ⟨front, rest, hcs, hfirst⟩ := ih ((List.infix_cons_iff.1 h).resolve_left hstart)
      refine ⟨c :: front, rest, by rw [hcs]; rfl, ?_⟩
      rw [List.cons_append, List.infix_cons_iff]
      rintro (hmatch | hlater)
      · -- A match at `c` would be one at the start of the text.
        apply hstart
        rw [hcs, List.append_assoc]
        have hbehind : front ++ sep.dropLast <+: front ++ (sep ++ rest) := by
          rw [List.prefix_append_right_inj]
          exact (List.dropLast_prefix sep).trans (List.prefix_append sep rest)
        exact hmatch.trans (List.cons_prefix_cons.2 ⟨rfl, hbehind⟩)
      · exact hfirst hlater

/-! ## Walks over a text -/

theorem splitFrom_cons (p : Char) (ps piece : List Char) (c : Char) (rest : List Char) :
    splitFrom p ps piece (c :: rest) = match after? (p :: ps) (c :: rest) with
      | some more => piece.reverse :: splitFrom p ps [] more
      | none => splitFrom p ps (c :: piece) rest := by
  rw [splitFrom, after?]
  by_cases hpc : p = c
  · rw [if_pos hpc, if_pos hpc]
    split
    · rename_i more hmore
      rw [hmore]
    · rename_i hnone
      rw [hnone]
  · rw [if_neg hpc, if_neg hpc]

theorem replaceFrom_cons (p : Char) (ps new : List Char) (c : Char) (rest : List Char) :
    replaceFrom p ps new (c :: rest) = match after? (p :: ps) (c :: rest) with
      | some more => new ++ replaceFrom p ps new more
      | none => c :: replaceFrom p ps new rest := by
  rw [replaceFrom, after?]
  by_cases hpc : p = c
  · rw [if_pos hpc, if_pos hpc]
    split
    · rename_i more hmore
      rw [hmore]
    · rename_i hnone
      rw [hnone]
  · rw [if_neg hpc, if_neg hpc]

theorem splitFrom_of_absent (h : ¬ p :: ps <:+: s) :
    splitFrom p ps piece s = [piece.reverse ++ s] := by
  induction s generalizing piece with
  | nil => rw [splitFrom, List.append_nil]
  | cons c cs ih =>
    rw [List.infix_cons_iff, not_or] at h
    rw [splitFrom_cons, after?_eq_none_iff.2 h.1, ih h.2]
    simp

theorem splitFrom_of_first (h : ¬ p :: ps <:+: front ++ (p :: ps).dropLast) :
    splitFrom p ps piece (front ++ (p :: ps) ++ rest)
      = (piece.reverse ++ front) :: splitFrom p ps [] rest := by
  induction front generalizing piece with
  | nil =>
    have hmatch : after? (p :: ps) (p :: (ps ++ rest)) = some rest := after?_eq_some_iff.2 rfl
    rw [List.nil_append, List.cons_append, splitFrom_cons, hmatch, List.append_nil]
  | cons c front ih =>
    have hnone : after? (p :: ps) (c :: (front ++ (p :: ps) ++ rest)) = none :=
      after?_eq_none_iff.2 (not_prefix_of_first h)
    rw [List.cons_append, List.infix_cons_iff, not_or] at h
    rw [List.cons_append, List.cons_append, splitFrom_cons, hnone, ih h.2]
    simp

theorem splitFrom_ne_nil (p : Char) (ps piece s : List Char) : splitFrom p ps piece s ≠ [] := by
  induction s generalizing piece with
  | nil => rw [splitFrom]; exact List.cons_ne_nil _ _
  | cons c cs ih =>
    rw [splitFrom_cons]
    split
    · exact List.cons_ne_nil _ _
    · exact ih _

/-- Both walks take the same matches. The text in front of the next match is a piece to one of them,
and is put out by the other. -/
theorem intercalate_splitFrom (p : Char) (ps new piece s : List Char) :
    new.intercalate (splitFrom p ps piece s) = piece.reverse ++ replaceFrom p ps new s := by
  fun_induction splitFrom p ps piece s with
  | case1 piece => rw [List.intercalate_singleton, replaceFrom, List.append_nil]
  | case2 piece rest more hmore ih =>
    have hmatch : after? (p :: ps) (p :: rest) = some more := by
      rw [after?, if_pos rfl, hmore]
    rw [List.intercalate_cons_of_ne_nil (splitFrom_ne_nil _ _ _ _), ih, replaceFrom_cons, hmatch]
    simp
  | case3 piece rest hnone ih =>
    have hmatch : after? (p :: ps) (p :: rest) = none := by
      rw [after?, if_pos rfl, hnone]
    rw [ih, replaceFrom_cons, hmatch]
    simp
  | case4 piece c rest hpc ih =>
    have hmatch : after? (p :: ps) (c :: rest) = none := by
      rw [after?, if_neg hpc]
    rw [ih, replaceFrom_cons, hmatch]
    simp

/-! ## Cuts -/

/-- Says that pieces are cut off at the leftmost matches of a separator: none begins in a piece that
has the separator behind it, and none is in the last one. -/
def LeftmostCut (sep : List Char) : List (List Char) → Prop
  | [] => False
  | [last] => ¬ sep <:+: last
  | piece :: next :: more => ¬ sep <:+: piece ++ sep.dropLast ∧ LeftmostCut sep (next :: more)

/-- A text that is joined from the pieces of a cut is split into them again. -/
theorem split_of_leftmostCut (hsep : sep ≠ []) (h : LeftmostCut sep pieces) :
    split sep (sep.intercalate pieces) = pieces := by
  obtain ⟨p, ps, rfl⟩ := List.exists_cons_of_ne_nil hsep
  show splitFrom p ps [] _ = _
  induction pieces with
  | nil => exact absurd h id
  | cons piece more ih =>
    cases more with
    | nil => rw [List.intercalate_singleton, splitFrom_of_absent h, List.reverse_nil,
        List.nil_append]
    | cons next more =>
      obtain ⟨hfirst, hmore⟩ := h
      rw [List.intercalate_cons_cons, splitFrom_of_first hfirst, ih hmore, List.reverse_nil,
        List.nil_append]

/-- Every text has a cut. The induction is on the length of the text: behind its first match, it is
shorter. -/
theorem exists_leftmostCut (hsep : sep ≠ []) (s : List Char) :
    ∃ pieces, LeftmostCut sep pieces ∧ sep.intercalate pieces = s := by
  induction hn : s.length using Nat.strongRecOn generalizing s with
  | ind n ih =>
    by_cases hoccurs : sep <:+: s
    · obtain ⟨front, rest, hs, hfirst⟩ := exists_first hsep hoccurs
      have hshorter : rest.length < n := by
        have hpos : 0 < sep.length := List.length_pos_iff.2 hsep
        rw [← hn, hs, List.length_append, List.length_append]
        omega
      obtain ⟨pieces, hcut, hrest⟩ := ih rest.length hshorter rest rfl
      cases pieces with
      | nil => exact absurd hcut id
      | cons next more =>
        refine ⟨front :: next :: more, ⟨hfirst, hcut⟩, ?_⟩
        rw [List.intercalate_cons_cons, hrest, hs]
    · exact ⟨[s], hoccurs, List.intercalate_singleton⟩

/-- Splitting a text cuts it at the leftmost matches, and nothing else does. -/
theorem split_eq_iff (hsep : sep ≠ []) :
    split sep s = pieces ↔ LeftmostCut sep pieces ∧ sep.intercalate pieces = s := by
  constructor
  · -- Some cut there is, and splitting the text joined from it gives back that one.
    rintro rfl
    obtain ⟨pieces, hcut, rfl⟩ := exists_leftmostCut hsep s
    rw [split_of_leftmostCut hsep hcut]
    exact ⟨hcut, rfl⟩
  · rintro ⟨hcut, rfl⟩
    exact split_of_leftmostCut hsep hcut

/-- Of matches that overlap the first one counts. -/
example : split ['a', 'a'] ['a', 'a', 'a', 'b'] = [[], ['a', 'b']] := by decide +kernel

/-- A single character has a match wherever it stands, so the pieces of a cut are those without it. -/
theorem leftmostCut_singleton_iff :
    LeftmostCut [c] pieces ↔ pieces ≠ [] ∧ ∀ piece ∈ pieces, c ∉ piece := by
  induction pieces with
  | nil => exact iff_of_false id fun h => h.1 rfl
  | cons piece more ih =>
    cases more with
    | nil => simp [LeftmostCut, List.singleton_infix_iff]
    | cons next more =>
      rw [LeftmostCut, ih, List.forall_mem_cons]
      simp [List.singleton_infix_iff]

/-! ## Splitting and replacing -/

/-- Between and around single characters stands what an empty pattern is exchanged for. -/
theorem intercalate_split_nil (new s : List Char) :
    new.intercalate (split [] s) = replace [] new s := by
  have hrow : ∀ cs : List Char, new.intercalate ((cs.map fun c => [c]) ++ [[]])
      = cs.flatMap fun c => c :: new := by
    intro cs
    induction cs with
    | nil => exact List.intercalate_singleton
    | cons c cs ih =>
      rw [List.map_cons, List.cons_append, List.intercalate_cons_of_ne_nil (by simp), ih,
        List.flatMap_cons]
      rfl
  show new.intercalate ([] :: ((s.map fun c => [c]) ++ [[]])) = new ++ s.flatMap fun c => c :: new
  rw [List.intercalate_cons_of_ne_nil (by simp), hrow, List.nil_append]

/-- Replacing is splitting and joining with something else. -/
theorem intercalate_split (sep new s : List Char) :
    new.intercalate (split sep s) = replace sep new s := by
  cases sep with
  | nil => exact intercalate_split_nil new s
  | cons p ps => exact intercalate_splitFrom p ps new [] s

/-- The separator put back in gives the text back. -/
theorem intercalate_split_self (sep s : List Char) : sep.intercalate (split sep s) = s := by
  cases sep with
  | nil =>
    rw [intercalate_split]
    show [] ++ s.flatMap (fun c => [c]) = s
    rw [List.nil_append, List.flatMap_singleton']
  | cons p ps => exact ((split_eq_iff (List.cons_ne_nil p ps)).1 rfl).2

/-- There is more than one piece exactly if there is a match. -/
theorem two_le_length_split_iff (sep s : List Char) : 2 ≤ (split sep s).length ↔ sep <:+: s := by
  cases sep with
  | nil => simp [split]
  | cons p ps =>
    show 2 ≤ (splitFrom p ps [] s).length ↔ _
    by_cases hoccurs : p :: ps <:+: s
    · obtain ⟨front, rest, rfl, hfirst⟩ := exists_first (List.cons_ne_nil p ps) hoccurs
      have hpos := List.length_pos_iff.2 (splitFrom_ne_nil p ps [] rest)
      rw [splitFrom_of_first hfirst, List.length_cons]
      exact iff_of_true (by omega) hoccurs
    · rw [splitFrom_of_absent hoccurs]
      exact iff_of_false (by simp) hoccurs

end Text

/-! ## The helpers -/

namespace Helper

theorem map_ofList_eq_iff {pieces : List (List Char)} {xs : List String} :
    pieces.map String.ofList = xs ↔ pieces = xs.map String.toList := by
  constructor
  · rintro rfl
    rw [List.map_map]
    exact (List.map_id'' (fun piece => String.toList_ofList) pieces).symm
  · rintro rfl
    rw [List.map_map]
    exact List.map_id'' (fun x => String.ofList_toList) xs

theorem ofChars_toList (s : String) : ofChars s.toList = .string s := by
  rw [ofChars, String.ofList_toList]

theorem apply_join (sep : String) (parts : List String) :
    apply .join [.string sep, .list (parts.map .string)]
      = .ok (.string (String.intercalate sep parts)) := by
  have hrendered : (parts.map Value.string).map (fun v => v.render.toList)
      = parts.map String.toList := by
    rw [List.map_map]
    rfl
  show Except.ok (ofChars (List.intercalate sep.toList _)) = _
  rw [hrendered, ← String.toList_intercalate, ofChars_toList]

theorem apply_split (sep s : String) :
    apply .split [.string sep, .string s]
      = .ok (.list (((Text.split sep.toList s.toList).map String.ofList).map .string)) := by
  show Except.ok (Value.list _) = _
  rw [List.map_map]
  rfl

theorem apply_replace (sep new s : String) :
    apply .replace [.string sep, .string new, .string s]
      = .ok (ofChars (Text.replace sep.toList new.toList s.toList)) := rfl

theorem apply_contains (sep s : String) :
    apply .contains [.string sep, .string s] = .ok (.bool (Text.occurs sep.toList s.toList)) := rfl

theorem toList_intercalate_split (sep new s : String) :
    (String.intercalate new ((Text.split sep.toList s.toList).map String.ofList)).toList
      = Text.replace sep.toList new.toList s.toList := by
  rw [String.toList_intercalate, ← map_ofList_eq_iff.1 rfl, Text.intercalate_split]

/-- Joined with a character, strings are split into themselves if they are the pieces of a cut. -/
theorem split_intercalate_eq_iff (c : Char) (xs : List String) :
    apply .split [.string (String.singleton c),
        .string (String.intercalate (String.singleton c) xs)] = .ok (.list (xs.map .string))
      ↔ xs ≠ [] ∧ ∀ x ∈ xs, c ∉ x.toList := by
  have hinj : ∀ as bs : List String, as.map Value.string = bs.map Value.string ↔ as = bs :=
    fun _ _ => List.map_inj_right fun _ _ h => Value.string.inj h
  rw [apply_split, Except.ok.injEq, Value.list.injEq, hinj, String.toList_intercalate,
    String.toList_singleton, map_ofList_eq_iff, Text.split_eq_iff (List.cons_ne_nil c []),
    Text.leftmostCut_singleton_iff]
  simp

/-- **Splitting, joining, replacing and looking for a text agree.** For any separator, the empty one
included, the pieces of a text joined with the separator are the text, and joined with another text
they are what replacing gives. A text contains the separator, as a stretch of it, exactly if there are
two pieces or more. And strings that were joined with a single character are the pieces again exactly
if there is one and the character is in none of them. -/
theorem splitting_agrees (sep s new : String) (c : Char) (xs : List String) :
    (∃ parts : List String,
      apply .split [.string sep, .string s] = .ok (.list (parts.map .string)) ∧
      apply .join [.string sep, .list (parts.map .string)] = .ok (.string s) ∧
      (∃ t, apply .replace [.string sep, .string new, .string s] = .ok (.string t) ∧
        apply .join [.string new, .list (parts.map .string)] = .ok (.string t)) ∧
      apply .contains [.string sep, .string s] = .ok (.bool (2 ≤ parts.length)) ∧
      (2 ≤ parts.length ↔ sep.toList <:+: s.toList)) ∧
    ∃ t, apply .join [.string (String.singleton c), .list (xs.map .string)] = .ok (.string t) ∧
      (apply .split [.string (String.singleton c), .string t] = .ok (.list (xs.map .string))
        ↔ xs ≠ [] ∧ ∀ x ∈ xs, c ∉ x.toList) := by
  have hjoined : ∀ t : String,
      String.intercalate t ((Text.split sep.toList s.toList).map String.ofList)
        = String.ofList (Text.replace sep.toList t.toList s.toList) := by
    intro t
    rw [← toList_intercalate_split, String.ofList_toList]
  have hparts := Text.two_le_length_split_iff sep.toList s.toList
  refine ⟨⟨_, apply_split sep s, ?_, ?_, ?_, ?_⟩, _, apply_join _ xs, split_intercalate_eq_iff c xs⟩
  · rw [apply_join, hjoined, ← Text.intercalate_split, Text.intercalate_split_self,
      String.ofList_toList]
  · exact ⟨_, apply_replace sep new s, by rw [apply_join, hjoined]⟩
  · have hoccurs : Text.occurs sep.toList s.toList
        = decide (2 ≤ (Text.split sep.toList s.toList).length) := by
      rw [Bool.eq_iff_iff, Text.occurs_iff, decide_eq_true_iff, hparts]
    rw [apply_contains, List.length_map, hoccurs]
  · rw [List.length_map, hparts]

end Helper

end Stencil
