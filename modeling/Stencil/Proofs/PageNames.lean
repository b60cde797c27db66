/-
Page identifiers of files below the views.

The identifier of a page is made of the names that lead to its file, and the extension is taken off
the last of them. For a file whose name ends in the extension this leaves something to name the page
by, except in one case: if the file is called by the extension and nothing else, what is left is
empty or ends in a slash.
-/
import Stencil.Proofs.Locations
import Stencil.Site.PageId

set_option autoImplicit false

namespace Stencil

namespace PageId

theorem names?_map_name (l : Location) : names? (l.map .name) = some l := by
  induction l with
  | nil => rfl
  | cons name rest ih => rw [List.map_cons, names?, ih, Option.map_some]

/-- Below a directory, a path goes on by the names that it has more. -/
theorem namesBelow?_of_parts {dir p : Path} {names : Location}
    (h : p.parts = dir.parts ++ names.map .name) : namesBelow? dir p = some names := by
  have hbelow : dir.parts.isPrefixOf (dir.parts ++ names.map .name) = true :=
    List.isPrefixOf_iff_prefix.2 (List.prefix_append _ _)
  unfold namesBelow?
  rw [h, if_pos hbelow, List.drop_left]
  exact names?_map_name names

/-- Below the path of a location, the path of a longer one goes on by the names that it has more. -/
theorem namesBelow?_path {dir names : Location} (h : Location.Proper (dir ++ names)) :
    namesBelow? dir.path (Location.path (dir ++ names)) = some names := by
  have hdir : dir.Proper := h.of_sublist (List.sublist_append_left dir names)
  apply namesBelow?_of_parts
  rw [h.parts_path, hdir.parts_path, List.map_append]

/-- Without the extension, the last name is what it has in front of the extension. -/
theorem strip?_intercalate {front : Location} {name ext : String} {stem : List Char}
    (h : name.toList = stem ++ ext.toList) :
    Extension.strip? ext (String.intercalate "/" (front ++ [name]))
      = some (String.ofList ((front.flatMap fun n => n.toList ++ ['/']) ++ stem)) := by
  unfold Extension.strip? Extension.endsName
  rw [Location.toList_intercalate_concat, h, ← List.append_assoc,
    if_pos (List.isSuffixOf_iff_suffix.2 (List.suffix_append _ _)), List.length_append,
    Nat.add_sub_cancel, List.take_left]

/-- Something is left of a file name if it is more than the extension. -/
theorem isStem_iff {front : Location} {stem : List Char} (hslash : '/' ∉ stem) :
    isStem (String.ofList ((front.flatMap fun n => n.toList ++ ['/']) ++ stem)) = true
      ↔ stem ≠ [] := by
  unfold isStem
  rw [String.toList_ofList]
  cases stem with
  | nil =>
    rw [List.append_nil]
    rcases List.eq_nil_or_concat front with rfl | ⟨before, last, rfl⟩
    · simp
    · simp
  | cons c rest =>
    have hlast : ((front.flatMap fun n => n.toList ++ ['/']) ++ c :: rest).getLast?
        = some ((c :: rest).getLast (List.cons_ne_nil c rest)) := by
      rw [List.getLast?_append, List.getLast?_eq_some_getLast (List.cons_ne_nil c rest), Option.some_or]
    have hne : (c :: rest).getLast (List.cons_ne_nil c rest) ≠ '/' :=
      fun heq => hslash (heq ▸ List.getLast_mem (List.cons_ne_nil c rest))
    rw [hlast]
    simp [hne]

/-- **A file that ends in the extension has no identifier exactly if it is called by the extension
only.** -/
theorem ofPath?_eq_none_iff {id : SourceId} {ext name : String} {dir names : Location}
    (h : Location.Proper (dir ++ names)) (hname : names.getLast? = some name)
    (hends : Extension.endsName ext name = true) :
    ofPath? id dir.path (Location.path (dir ++ names)) ext = none ↔ name = ext := by
  obtain ⟨front, rfl⟩ : ∃ front, names = front ++ [name] := List.getLast?_eq_some_iff.1 hname
  obtain ⟨stem, hstem⟩ := List.isSuffixOf_iff_suffix.1 hends
  have hslash : '/' ∉ stem := by
    intro hmem
    refine (h name (by simp)).noSlash ?_
    rw [← hstem]
    exact List.mem_append_left _ hmem
  have hempty : stem = [] ↔ name = ext := by
    constructor
    · intro hnil
      rw [hnil, List.nil_append] at hstem
      exact (String.toList_inj.1 hstem).symm
    · intro heq
      rw [heq] at hstem
      simpa using hstem
  unfold ofPath?
  rw [namesBelow?_path h]
  show (Extension.strip? ext (String.intercalate "/" (front ++ [name])) >>= _) = none ↔ _
  rw [strip?_intercalate hstem.symm, ← hempty]
  change (if isStem _ = true then _ else none) = none ↔ _
  by_cases hleft : stem = []
  · rw [if_neg fun htrue => (isStem_iff hslash).1 htrue hleft]
    simp [hleft]
  · rw [if_pos ((isStem_iff hslash).2 hleft)]
    cases id.qualifier? with
    | none => simp [hleft]
    | some qualifier => simp [hleft]

end PageId

end Stencil
