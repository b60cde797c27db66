/-
Locations and the paths that lead to them.

A location is a list of names, and its path has the same names with slashes between them. Reading the
path gives the location back, and its last name is the file name of the path, as long as each of the
names can be a name: one without a slash, which is neither empty nor one of the two that mean a place
relative to another. All names that are ever read from a path are of this kind.
-/
import Stencil.Files.Error

set_option autoImplicit false

namespace Stencil

/-! ## Splitting at one character -/

namespace Text

theorem splitFrom_eq_splitOnPPrepend (c : Char) (s : List Char) (piece : List Char) :
    splitFrom c [] piece s = List.splitOnPPrepend (· == c) s piece := by
  induction s generalizing piece with
  | nil => rw [splitFrom, List.splitOnPPrepend_nil]
  | cons d rest ih =>
    by_cases hd : c = d
    · rw [List.splitOnPPrepend_cons_pos (by simp [hd]), splitFrom, if_pos hd]
      -- Nothing is left of the pattern behind its only character.
      show piece.reverse :: splitFrom c [] [] rest = _
      rw [ih, List.splitOnPPrepend_nil_right]
    · rw [List.splitOnPPrepend_cons_neg (by simp [Ne.symm hd]), splitFrom, if_neg hd, ih]

/-- Around a single character, the pieces are those that lists have there. -/
theorem split_singleton (c : Char) (s : List Char) : split [c] s = s.splitOn c :=
  splitFrom_eq_splitOnPPrepend c s []

/-- The pieces around a character do not contain it. -/
theorem not_mem_of_mem_splitOn {c : Char} {s piece : List Char} (h : piece ∈ s.splitOn c) :
    c ∉ piece := by
  induction s generalizing piece with
  | nil =>
    rw [List.splitOn_nil, List.mem_singleton] at h
    rw [h]
    exact List.not_mem_nil
  | cons d rest ih =>
    rw [List.splitOn_cons_eq_if_modifyHead] at h
    split at h
    · rcases List.mem_cons.1 h with rfl | h
      · exact List.not_mem_nil
      · exact ih h
    · rename_i hd
      have hne : c ≠ d := fun heq => hd (by rw [heq, beq_self_eq_true])
      obtain ⟨first, others, hpieces⟩ := List.exists_cons_of_ne_nil (List.splitOn_ne_nil c rest)
      rw [hpieces, List.modifyHead_cons] at h
      rcases List.mem_cons.1 h with rfl | h
      · rw [List.mem_cons, not_or]
        exact ⟨hne, ih (hpieces ▸ List.mem_cons_self)⟩
      · exact ih (hpieces ▸ List.mem_cons_of_mem first h)

/-- In a joined text, every piece but the last has the separator behind it. -/
theorem intercalate_append_singleton (sep : List Char) (front : List (List Char))
    (last : List Char) :
    sep.intercalate (front ++ [last]) = (front.flatMap fun piece => piece ++ sep) ++ last := by
  induction front with
  | nil => rw [List.nil_append, List.intercalate_singleton, List.flatMap_nil, List.nil_append]
  | cons first rest ih =>
    have hne : rest ++ [last] ≠ [] := List.append_ne_nil_of_right_ne_nil rest (List.cons_ne_nil _ _)
    rw [List.cons_append, List.intercalate_cons_of_ne_nil hne, ih, List.flatMap_cons]
    simp

end Text

/-! ## Names -/

/-- Says that a text can be the name of something in a directory. -/
structure IsName (s : String) : Prop where
  noSlash : '/' ∉ s.toList
  notEmpty : s ≠ ""
  notCurrent : s ≠ "."
  notParent : s ≠ ".."

theorem isName_iff {s : String} :
    IsName s ↔ '/' ∉ s.toList ∧ s ≠ "" ∧ s ≠ "." ∧ s ≠ ".." :=
  ⟨fun h => ⟨h.noSlash, h.notEmpty, h.notCurrent, h.notParent⟩,
    fun ⟨hslash, hempty, hcurrent, hparent⟩ => ⟨hslash, hempty, hcurrent, hparent⟩⟩

instance (s : String) : Decidable (IsName s) := decidable_of_iff' _ isName_iff

/-- Says that all names of a location can be names. -/
def Location.Proper (l : Location) : Prop := ∀ name ∈ l, IsName name

instance (l : Location) : Decidable l.Proper := inferInstanceAs (Decidable (∀ name ∈ l, IsName name))

theorem IsName.toList_ne_nil {name : String} (h : IsName name) : name.toList ≠ [] := by
  intro heq
  exact h.notEmpty (String.toList_inj.1 heq)

theorem IsName.toList_ne_current {name : String} (h : IsName name) : name.toList ≠ ['.'] := by
  intro heq
  exact h.notCurrent (String.toList_inj.1 heq)

theorem IsName.ofPiece? {name : String} (h : IsName name) :
    PathPart.ofPiece? name.toList = some (.name name) := by
  have hparent : name.toList ≠ ['.', '.'] := by
    intro heq
    exact h.notParent (String.toList_inj.1 heq)
  unfold PathPart.ofPiece?
  rw [if_neg (not_or.2 ⟨h.toList_ne_nil, h.toList_ne_current⟩), if_neg hparent,
    String.ofList_toList]

theorem IsName.ofFirstPiece? {name : String} (h : IsName name) (slashFollows : Bool) :
    PathPart.ofFirstPiece? name.toList slashFollows = some (.name name) := by
  unfold PathPart.ofFirstPiece?
  rw [if_neg h.toList_ne_nil, if_neg h.toList_ne_current, h.ofPiece?]

theorem isName_of_ofPiece? {piece : List Char} {name : String} (hslash : '/' ∉ piece)
    (h : PathPart.ofPiece? piece = some (.name name)) : IsName name := by
  unfold PathPart.ofPiece? at h
  split at h
  · cases h
  · rename_i hplain
    obtain ⟨hempty, hcurrent⟩ := not_or.1 hplain
    split at h
    · cases h
    · rename_i hparent
      have hname : String.ofList piece = name := PathPart.name.inj (Option.some.inj h)
      have hne : ∀ other : List Char, piece ≠ other → name ≠ String.ofList other := by
        intro other hother heq
        rw [← hname] at heq
        exact hother (String.ofList_injective heq)
      refine ⟨?_, hne [] hempty, hne ['.'] hcurrent, hne ['.', '.'] hparent⟩
      rw [← hname, String.toList_ofList]
      exact hslash

theorem isName_of_ofFirstPiece? {piece : List Char} {slashFollows : Bool} {name : String}
    (hslash : '/' ∉ piece) (h : PathPart.ofFirstPiece? piece slashFollows = some (.name name)) :
    IsName name := by
  unfold PathPart.ofFirstPiece? at h
  split at h
  · split at h <;> cases h
  · split at h
    · cases h
    · exact isName_of_ofPiece? hslash h

namespace Path

/-- Every name among the parts of a path can be a name. -/
theorem isName_of_mem_parts {p : Path} {name : String} (h : .name name ∈ p.parts) : IsName name := by
  have hslash : ∀ piece ∈ p.pieces, '/' ∉ piece := by
    intro piece hpiece
    rw [pieces, Text.split_singleton] at hpiece
    exact Text.not_mem_of_mem_splitOn hpiece
  unfold parts at h
  generalize p.pieces = pieces at h hslash
  cases pieces with
  | nil => exact absurd h List.not_mem_nil
  | cons first rest =>
    rcases List.mem_append.1 h with h | h
    · exact isName_of_ofFirstPiece? (hslash first List.mem_cons_self) (Option.mem_toList.1 h)
    · obtain ⟨piece, hpiece, hname⟩ := List.mem_filterMap.1 h
      exact isName_of_ofPiece? (hslash piece (List.mem_cons_of_mem first hpiece)) hname

theorem mem_of_locationOf? {parts : List PathPart} {l : Location} (h : locationOf? parts = some l)
    {name : String} (hname : name ∈ l) : .name name ∈ parts := by
  induction parts generalizing l with
  | nil =>
    rw [locationOf?] at h
    rw [← Option.some.inj h] at hname
    exact absurd hname List.not_mem_nil
  | cons part rest ih =>
    cases part with
    | parent => cases h
    | root | current => exact List.mem_cons_of_mem _ (ih h hname)
    | name s =>
      obtain ⟨below, hbelow, rfl⟩ := Option.map_eq_some_iff.1 h
      rcases List.mem_cons.1 hname with rfl | hname
      · exact List.mem_cons_self
      · exact List.mem_cons_of_mem _ (ih hbelow hname)

/-- A path leads to a location of proper names. -/
theorem proper_of_location? {p : Path} {l : Location} (h : p.location? = some l) : l.Proper :=
  fun _ hname => isName_of_mem_parts (mem_of_locationOf? h hname)

theorem locationOf?_map_name (l : Location) : locationOf? (l.map .name) = some l := by
  induction l with
  | nil => rfl
  | cons name rest ih => rw [List.map_cons, locationOf?, ih, Option.map_some]

theorem location_of_some {p : Path} {l : Location} (h : p.location? = some l) :
    p.location = .ok l := by
  rw [location, h]

theorem location_of_none {p : Path} (h : p.location? = none) :
    p.location = .error (.pathOutsideRoot p) := by
  rw [location, h]

end Path

/-! ## The path of a location -/

namespace Location

/-- In a joined text, every name but the last has a slash behind it. -/
theorem toList_intercalate_concat (front : Location) (name : String) :
    (String.intercalate "/" (front ++ [name])).toList
      = (front.flatMap fun n => n.toList ++ ['/']) ++ name.toList := by
  rw [String.toList_intercalate, List.map_append, List.map_singleton,
    Text.intercalate_append_singleton, List.flatMap_map]
  rfl

variable {l : Location}

theorem Proper.nil : Proper [] := fun _ h => absurd h List.not_mem_nil

theorem Proper.append {l' : Location} (h : l.Proper) (h' : l'.Proper) :
    Location.Proper (l ++ l') := by
  intro name hname
  rcases List.mem_append.1 hname with hname | hname
  · exact h name hname
  · exact h' name hname

theorem Proper.of_sublist {l' : Location} (h : l.Proper) (hsub : l'.Sublist l) : l'.Proper :=
  fun name hname => h name (hsub.subset hname)

theorem Proper.filterMap_ofPiece? (h : l.Proper) :
    (l.map String.toList).filterMap PathPart.ofPiece? = l.map .name := by
  induction l with
  | nil => rfl
  | cons name rest ih =>
    have hname : PathPart.ofPiece? name.toList = some (.name name) :=
      (h name List.mem_cons_self).ofPiece?
    rw [List.map_cons, List.filterMap_cons_some hname,
      ih fun other hother => h other (List.mem_cons_of_mem name hother), List.map_cons]

/-- The pieces of the path of a location below the starting point are its names. -/
theorem Proper.pieces_path (h : l.Proper) (hne : l ≠ []) : l.path.pieces = l.map String.toList := by
  show Text.split ['/'] (String.intercalate "/" l).toList = _
  rw [Text.split_singleton, String.toList_intercalate]
  refine List.splitOn_intercalate '/' (fun piece hpiece => ?_) (by simpa using hne)
  obtain ⟨name, hname, rfl⟩ := List.mem_map.1 hpiece
  exact (h name hname).noSlash

/-- The empty text is a single piece, and that is no part. -/
theorem pieces_path_nil : (path []).pieces = [[]] := Text.split_singleton '/' []

/-- Only the path to the root has no text. -/
theorem Proper.toList_path_ne_nil (h : l.Proper) (hne : l ≠ []) : l.path.text.toList ≠ [] := by
  intro hchars
  have hpieces := h.pieces_path hne
  unfold Path.pieces at hpieces
  rw [hchars, Text.split_singleton, List.splitOn_nil] at hpieces
  obtain ⟨name, hname⟩ := List.exists_mem_of_ne_nil l hne
  have hmem : name.toList ∈ [([] : List Char)] := by
    rw [hpieces]
    exact List.mem_map_of_mem hname
  exact (h name hname).toList_ne_nil (List.mem_singleton.1 hmem)

/-- The parts of a location's path are its names. -/
theorem Proper.parts_path (h : l.Proper) : l.path.parts = l.map .name := by
  cases l with
  | nil =>
    rw [Path.parts, pieces_path_nil]
    rfl
  | cons first rest =>
    have hrest : Proper rest := h.of_sublist (List.sublist_cons_self first rest)
    rw [Path.parts, h.pieces_path (List.cons_ne_nil first rest), List.map_cons, Path.partsOf,
      (h first List.mem_cons_self).ofFirstPiece?, hrest.filterMap_ofPiece?]
    rfl

/-- The path of a location leads to it. -/
theorem Proper.location?_path (h : l.Proper) : l.path.location? = some l := by
  rw [Path.location?, h.parts_path, Path.locationOf?_map_name]

theorem Proper.location_path (h : l.Proper) : l.path.location = .ok l :=
  Path.location_of_some h.location?_path

/-- The file name of a location's path is its last name. -/
theorem Proper.fileName?_path (h : l.Proper) : l.path.fileName? = l.getLast? := by
  rw [Path.fileName?, h.parts_path, List.getLast?_map]
  cases l.getLast? with
  | none => rfl
  | some name => rfl

end Location

end Stencil
