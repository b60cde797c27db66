/-
What is known of matchers of names.

A site works with any matcher, but what it finds depends on how names are matched. `Glob.Documented`
says what a matcher promises, as far as patterns of stars, escaped characters and plain ones go: how a
text is escaped, that such a pattern can be read, and what it matches. What it matches is said by a
relation that takes a name apart character by character, with one rule for each piece; it does not
say how a star finds the run of characters that it stands for.

The matcher for such patterns keeps these promises.
-/
import Stencil.Site.PlainGlob

set_option autoImplicit false

namespace Stencil

namespace GlobPiece

variable {options : MatchOptions} {atStart : Bool} {c : Char} {s : List Char}
  {pieces : List GlobPiece}

/-! ## Matching -/

/-- Says that something else than the character itself may match it, at the start of a name or behind
a slash where `atStart` says so. -/
def Free (options : MatchOptions) (atStart : Bool) (c : Char) : Prop :=
  (options.requireLiteralSeparator = true → c ≠ '/') ∧
    (options.requireLiteralLeadingDot = true → atStart = true → c ≠ '.')

/-- Says that pieces match characters. A star may match nothing, or a free character and then go on. -/
inductive Matches (options : MatchOptions) :
    (atStart : Bool) → List GlobPiece → List Char → Prop where
  | nil {atStart : Bool} : Matches options atStart [] []
  | skip {atStart : Bool} {pieces : List GlobPiece} {s : List Char} :
      Matches options atStart pieces s → Matches options atStart (.star :: pieces) s
  | more {atStart : Bool} {pieces : List GlobPiece} {c : Char} {s : List Char} :
      Free options atStart c → Matches options (c == '/') (.star :: pieces) s →
      Matches options atStart (.star :: pieces) (c :: s)
  | bracketed {atStart : Bool} {pieces : List GlobPiece} {c : Char} {s : List Char} :
      Free options atStart c → Matches options (c == '/') pieces s →
      Matches options atStart (.bracketed c :: pieces) (c :: s)
  | char {atStart : Bool} {pieces : List GlobPiece} {c : Char} {s : List Char} :
      Matches options (c == '/') pieces s → Matches options atStart (.char c :: pieces) (c :: s)

/-- Says that pieces are read from what is written for them: no star stands beside another one,
characters without brackets are not special, and the one in brackets is no exclamation mark. -/
def Readable : List GlobPiece → Prop
  | [] => True
  | .star :: rest => rest.head? ≠ some .star ∧ Readable rest
  | .bracketed c :: rest => c ≠ '!' ∧ Readable rest
  | .char c :: rest => isSpecial c = false ∧ Readable rest

end GlobPiece

/-- What a matcher of names promises. -/
structure Glob.Documented (glob : Glob) : Prop where
  /-- Every special character is put in brackets of its own. -/
  escape : ∀ text, (glob.escape text).toList
    = text.toList.flatMap fun c => if GlobPiece.isSpecial c then ['[', c, ']'] else [c]
  /-- What is written for readable pieces is a pattern, and it matches by these pieces. -/
  pattern : ∀ (pieces : List GlobPiece) (text : String), GlobPiece.Readable pieces →
    text.toList = pieces.flatMap GlobPiece.text →
    ∃ pattern, glob.pattern? text = some pattern ∧
      ∀ options name, options.caseSensitive = true →
        (pattern options name = true ↔ GlobPiece.Matches options true pieces name.toList)

/-! ## The matcher for stars and escaped characters -/

namespace GlobPiece

variable {options : MatchOptions} {atStart : Bool} {c : Char} {s : List Char}
  {pieces : List GlobPiece}

theorem isFree_eq_true_iff : isFree options atStart c = true ↔ Free options atStart c := by
  unfold isFree Free
  cases options.requireLiteralSeparator <;> cases options.requireLiteralLeadingDot <;>
    cases atStart <;> simp

theorem sameChar_eq_true_iff {d : Char} (h : options.caseSensitive = true) :
    sameChar options c d = true ↔ c = d := by
  simp [sameChar, h]

theorem text_literal (c : Char) :
    (literal c).text = if isSpecial c then ['[', c, ']'] else [c] := by
  unfold literal
  split <;> rfl

/-- A star matches by trying one run after the other. The induction is on the characters, since the
star takes them one by one. -/
theorem matchesRun_eq_true_iff {rest : Bool → List Char → Bool}
    (hrest : ∀ atStart s, rest atStart s = true ↔ Matches options atStart pieces s) :
    matchesRun options rest atStart s = true ↔ Matches options atStart (.star :: pieces) s := by
  induction s generalizing atStart with
  | nil =>
    rw [matchesRun, hrest]
    constructor
    · exact .skip
    · intro h
      cases h with
      | skip h => exact h
  | cons c s ih =>
    rw [matchesRun, Bool.or_eq_true, Bool.and_eq_true, hrest, isFree_eq_true_iff, ih]
    constructor
    · rintro (h | ⟨hfree, h⟩)
      · exact .skip h
      · exact .more hfree h
    · intro h
      cases h with
      | skip h => exact Or.inl h
      | more hfree h => exact Or.inr ⟨hfree, h⟩

theorem matchesFrom_eq_true_iff (h : options.caseSensitive = true) :
    matchesFrom options pieces atStart s = true ↔ Matches options atStart pieces s := by
  induction pieces generalizing atStart s with
  | nil =>
    rw [matchesFrom, List.isEmpty_iff]
    constructor
    · rintro rfl
      exact .nil
    · intro hmatches
      cases hmatches
      rfl
  | cons piece pieces ih =>
    cases piece with
    | star => exact matchesRun_eq_true_iff fun _ _ => ih
    | bracketed d =>
      cases s with
      | nil => exact iff_of_false Bool.false_ne_true nofun
      | cons c s =>
        rw [matchesFrom, Bool.and_eq_true, Bool.and_eq_true, isFree_eq_true_iff,
          sameChar_eq_true_iff h, ih]
        constructor
        · rintro ⟨⟨hfree, rfl⟩, hrest⟩
          exact .bracketed hfree hrest
        · intro hmatches
          cases hmatches with
          | bracketed hfree hrest => exact ⟨⟨hfree, rfl⟩, hrest⟩
    | char d =>
      cases s with
      | nil => exact iff_of_false Bool.false_ne_true nofun
      | cons c s =>
        rw [matchesFrom, Bool.and_eq_true, sameChar_eq_true_iff h, ih]
        constructor
        · rintro ⟨rfl, hrest⟩
          exact .char hrest
        · intro hmatches
          cases hmatches with
          | char hrest => exact ⟨rfl, hrest⟩

/-! ## Reading a pattern -/

theorem read?_star {rest : List Char} (h : rest.head? ≠ some '*') :
    read? ('*' :: rest) = (read? rest).map (.star :: ·) := by
  conv =>
    lhs
    unfold read?
  rw [if_pos rfl, if_neg h]

/-- Brackets around a single character, which may itself be a bracket. -/
theorem read?_bracketed (h : c ≠ '!') (rest : List Char) :
    read? ('[' :: c :: ']' :: rest) = (read? rest).map (.bracketed c :: ·) := by
  rw [read?, if_neg (by decide), if_pos rfl]
  exact if_pos ⟨rfl, h⟩

theorem read?_char (h : isSpecial c = false) (rest : List Char) :
    read? (c :: rest) = (read? rest).map (.char c :: ·) := by
  have hstar : c ≠ '*' := by
    rintro rfl
    exact absurd h (by decide)
  have hopen : c ≠ '[' := by
    rintro rfl
    exact absurd h (by decide)
  conv =>
    lhs
    unfold read?
  rw [if_neg hstar, if_neg hopen, if_neg (by simp [h])]

/-- Only for a star, a star is written first. -/
theorem head?_flatMap_text_ne_star (h : Readable pieces) (hstar : pieces.head? ≠ some .star) :
    (pieces.flatMap text).head? ≠ some '*' := by
  cases pieces with
  | nil => simp
  | cons piece rest =>
    cases piece with
    | star => exact absurd rfl hstar
    | bracketed c => simp [text]
    | char c =>
      have hplain : isSpecial c = false := h.1
      have hne : c ≠ '*' := by
        rintro rfl
        exact absurd hplain (by decide)
      simpa [text] using hne

theorem read?_flatMap_text (h : Readable pieces) : read? (pieces.flatMap text) = some pieces := by
  induction pieces with
  | nil => rfl
  | cons piece rest ih =>
    rw [List.flatMap_cons]
    cases piece with
    | star =>
      obtain ⟨hstar, hrest⟩ := h
      show read? ('*' :: rest.flatMap text) = _
      rw [read?_star (head?_flatMap_text_ne_star hrest hstar), ih hrest, Option.map_some]
    | bracketed c =>
      obtain ⟨hmark, hrest⟩ := h
      show read? ('[' :: c :: ']' :: rest.flatMap text) = _
      rw [read?_bracketed hmark, ih hrest, Option.map_some]
    | char c =>
      obtain ⟨hplain, hrest⟩ := h
      show read? (c :: rest.flatMap text) = _
      rw [read?_char hplain, ih hrest, Option.map_some]

end GlobPiece

theorem Glob.documented_plain : Glob.plain.Documented where
  escape text := by
    show (String.ofList _).toList = _
    rw [String.toList_ofList]
    exact congrArg text.toList.flatMap (funext GlobPiece.text_literal)
  pattern pieces text hreadable htext := by
    refine ⟨_, ?_, fun options name hcase => GlobPiece.matchesFrom_eq_true_iff hcase⟩
    show (GlobPiece.read? text.toList).map _ = _
    rw [htext, GlobPiece.read?_flatMap_text hreadable, Option.map_some]

end Stencil
