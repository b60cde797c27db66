/-
What a path says, from its text.

Between its slashes a path has pieces of text. One that is empty or a dot says nothing, two dots lead
upwards, and any other is a name. What stands for the root in front of the first slash, and a leading
dot, are parts of a path but lead nowhere. So a path has a location unless one of its pieces is two
dots, and then the location consists of the names in order.
-/
import Stencil.Proofs.Locations

set_option autoImplicit false

namespace Stencil

namespace PathPart

/-- Says that a piece of text between two slashes is a name. -/
def IsNamePiece (piece : List Char) : Prop := piece ≠ [] ∧ piece ≠ ['.'] ∧ piece ≠ ['.', '.']

instance (piece : List Char) : Decidable (IsNamePiece piece) :=
  inferInstanceAs (Decidable (piece ≠ [] ∧ piece ≠ ['.'] ∧ piece ≠ ['.', '.']))

variable {piece : List Char}

theorem ofPiece?_eq_parent_iff : ofPiece? piece = some .parent ↔ piece = ['.', '.'] := by
  unfold ofPiece?
  by_cases hidle : piece = [] ∨ piece = ['.']
  · rw [if_pos hidle]
    refine iff_of_false (by simp) ?_
    rintro rfl
    exact absurd hidle (by decide)
  · rw [if_neg hidle]
    by_cases hparent : piece = ['.', '.']
    · rw [if_pos hparent]
      exact iff_of_true rfl hparent
    · rw [if_neg hparent]
      exact iff_of_false (by simp) hparent

theorem name?_ofPiece? (piece : List Char) :
    (ofPiece? piece).bind name? = if IsNamePiece piece then some (String.ofList piece) else none := by
  unfold ofPiece?
  by_cases hidle : piece = [] ∨ piece = ['.']
  · have hnone : ¬ IsNamePiece piece := fun h => hidle.elim h.1 h.2.1
    rw [if_pos hidle, if_neg hnone, Option.bind_none]
  · obtain ⟨hempty, hcurrent⟩ := not_or.1 hidle
    rw [if_neg hidle]
    by_cases hparent : piece = ['.', '.']
    · have hnone : ¬ IsNamePiece piece := fun h => h.2.2 hparent
      rw [if_pos hparent, if_neg hnone]
      rfl
    · rw [if_neg hparent, if_pos ⟨hempty, hcurrent, hparent⟩]
      rfl

/-- What the first piece may mean besides is neither a step upwards nor a name. -/
theorem ofFirstPiece?_cases (piece : List Char) (slashFollows : Bool) :
    (ofFirstPiece? piece slashFollows = some .parent ↔ ofPiece? piece = some .parent) ∧
      (ofFirstPiece? piece slashFollows).bind name? = (ofPiece? piece).bind name? := by
  unfold ofFirstPiece?
  by_cases hempty : piece = []
  · cases slashFollows <;> simp [hempty, ofPiece?, name?]
  · rw [if_neg hempty]
    by_cases hcurrent : piece = ['.']
    · simp [hcurrent, ofPiece?, name?]
    · rw [if_neg hcurrent]
      exact ⟨Iff.rfl, rfl⟩

end PathPart

namespace Path

open PathPart

/-- The names among the parts of a path. -/
def names (p : Path) : Location := p.parts.filterMap name?

/-! ## Parts and pieces -/

theorem parent_mem_partsOf_iff (pieces : List (List Char)) :
    PathPart.parent ∈ partsOf pieces ↔ ['.', '.'] ∈ pieces := by
  cases pieces with
  | nil => exact iff_of_false List.not_mem_nil List.not_mem_nil
  | cons first rest =>
    have hfirst := (ofFirstPiece?_cases first !rest.isEmpty).1
    rw [partsOf, List.mem_append, Option.mem_toList, hfirst, ofPiece?_eq_parent_iff, List.mem_cons]
    simp only [List.mem_filterMap, ofPiece?_eq_parent_iff, exists_eq_right]
    exact or_congr_left eq_comm

theorem filterMap_name?_partsOf (pieces : List (List Char)) :
    (partsOf pieces).filterMap name?
      = (pieces.filter fun piece => IsNamePiece piece).map String.ofList := by
  have hpieces : ∀ others : List (List Char), (others.filterMap ofPiece?).filterMap name?
      = (others.filter fun piece => IsNamePiece piece).map String.ofList := by
    intro others
    rw [List.filterMap_filterMap]
    simp only [name?_ofPiece?]
    induction others with
    | nil => rfl
    | cons piece others ih =>
      rw [List.filterMap_cons, ih]
      by_cases hpiece : IsNamePiece piece
      · rw [if_pos hpiece, List.filter_cons_of_pos (by simpa using hpiece), List.map_cons]
      · rw [if_neg hpiece, List.filter_cons_of_neg (by simpa using hpiece)]
  cases pieces with
  | nil => rfl
  | cons first rest =>
    -- What stands for the root or for the start of a path is no name, so the first piece may be read
    -- like all others.
    have hfirst := (ofFirstPiece?_cases first !rest.isEmpty).2
    have hone : ∀ o : Option PathPart, o.toList.filterMap name? = (o.bind name?).toList := by
      intro o
      cases o with
      | none => rfl
      | some part => cases part <;> rfl
    rw [partsOf, List.filterMap_append, hone, hfirst, hpieces rest, name?_ofPiece?]
    by_cases hpiece : IsNamePiece first
    · rw [if_pos hpiece, List.filter_cons_of_pos (by simpa using hpiece)]
      rfl
    · rw [if_neg hpiece, List.filter_cons_of_neg (by simpa using hpiece)]
      rfl

/-- Two dots between slashes are the only step upwards. -/
theorem parent_mem_parts_iff (p : Path) : PathPart.parent ∈ p.parts ↔ ['.', '.'] ∈ p.pieces :=
  parent_mem_partsOf_iff p.pieces

/-- The names of a path are the pieces that are not empty and neither one dot nor two. -/
theorem names_eq (p : Path) :
    p.names = (p.pieces.filter fun piece => IsNamePiece piece).map String.ofList :=
  filterMap_name?_partsOf p.pieces

/-! ## Locations -/

theorem locationOf?_eq_some_iff {parts : List PathPart} {l : Location} :
    locationOf? parts = some l ↔ PathPart.parent ∉ parts ∧ l = parts.filterMap name? := by
  induction parts generalizing l with
  | nil => simp [locationOf?, eq_comm]
  | cons part rest ih =>
    cases part with
    | parent => simp [locationOf?]
    | root | current =>
      rw [locationOf?, ih, List.filterMap_cons_none rfl]
      simp
    | name s =>
      have hnames : (PathPart.name s :: rest).filterMap name? = s :: rest.filterMap name? := rfl
      rw [locationOf?, Option.map_eq_some_iff, hnames]
      simp only [ih, List.mem_cons, reduceCtorEq, false_or]
      constructor
      · rintro ⟨below, ⟨hparent, rfl⟩, rfl⟩
        exact ⟨hparent, rfl⟩
      · rintro ⟨hparent, rfl⟩
        exact ⟨_, ⟨hparent, rfl⟩, rfl⟩

theorem location?_eq_some_iff {p : Path} {l : Location} :
    p.location? = some l ↔ PathPart.parent ∉ p.parts ∧ l = p.names :=
  locationOf?_eq_some_iff

theorem location?_eq_none_iff {p : Path} : p.location? = none ↔ PathPart.parent ∈ p.parts := by
  constructor
  · intro h
    refine Decidable.byContradiction fun hparent => ?_
    rw [location?_eq_some_iff.2 ⟨hparent, rfl⟩] at h
    cases h
  · intro hparent
    cases hl : p.location? with
    | none => rfl
    | some l => exact absurd hparent (location?_eq_some_iff.1 hl).1

/-- A path without a step upwards leads to the location of its names. -/
theorem location?_of_no_parent {p : Path} (h : PathPart.parent ∉ p.parts) :
    p.location? = some p.names :=
  location?_eq_some_iff.2 ⟨h, rfl⟩

theorem location_eq_ok_iff {p : Path} {l : Location} :
    p.location = .ok l ↔ PathPart.parent ∉ p.parts ∧ l = p.names := by
  rw [← location?_eq_some_iff]
  cases hl : p.location? with
  | none => simp [location_of_none hl]
  | some l' => simp [location_of_some hl]

theorem location_eq_error_iff {p : Path} {e : FileError} :
    p.location = .error e ↔ PathPart.parent ∈ p.parts ∧ e = .pathOutsideRoot p := by
  rw [← location?_eq_none_iff]
  cases hl : p.location? with
  | none => simp [location_of_none hl, eq_comm]
  | some l => simp [location_of_some hl]

end Path

end Stencil
