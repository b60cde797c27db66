/-
The names of layouts.

Layouts are found by a pattern, partials and views by how their names end. The pattern is a star with
the escaped extension behind it, so every character of the extension stands for itself. What this
pattern matches is said here without patterns: a name that ends in the extension, unless it is a
hidden one that has something else in front of it. The star takes any run of characters, but not the
point of a hidden name, and that is the only difference between the two tests; a slash it would not
take either, but no name has one.

Of the matcher nothing is known but what it promises.
-/
import Mathlib.Data.List.Infix
import Stencil.Proofs.GlobMatching
import Stencil.Proofs.PathAnswers
import Stencil.Proofs.DiskNames
import Stencil.Proofs.SharedFiles

set_option autoImplicit false

namespace Stencil

/-! ## A star with literal characters behind it -/

namespace GlobPiece

variable {options : MatchOptions} {atStart : Bool} {s : List Char}

/-- Characters in brackets are special, and neither a slash nor a point is. -/
theorem free_of_isSpecial {c : Char} (h : isSpecial c = true) : Free options atStart c := by
  refine ⟨fun _ => ?_, fun _ _ => ?_⟩
  · rintro rfl
    exact absurd h (by decide)
  · rintro rfl
    exact absurd h (by decide)

theorem literal_ne_star (c : Char) : literal c ≠ .star := by
  unfold literal
  split <;> simp

theorem readable_literal (ext : List Char) : Readable (ext.map literal) := by
  induction ext with
  | nil => trivial
  | cons c ext ih =>
    rw [List.map_cons]
    cases hc : isSpecial c with
    | true =>
      have hpiece : literal c = .bracketed c := if_pos hc
      rw [hpiece]
      refine ⟨?_, ih⟩
      rintro rfl
      exact absurd hc (by decide)
    | false =>
      have hpiece : literal c = .char c := if_neg (by simp [hc])
      rw [hpiece]
      exact ⟨hc, ih⟩

/-- A piece for a character matches the character wherever it is, for a point is not special. -/
theorem matches_literal_cons {c d : Char} {pieces : List GlobPiece} :
    Matches options atStart (literal d :: pieces) (c :: s) ↔
      c = d ∧ Matches options (c == '/') pieces s := by
  cases hd : isSpecial d with
  | true =>
    have hpiece : literal d = .bracketed d := if_pos hd
    rw [hpiece]
    constructor
    · intro h
      cases h with
      | bracketed _ h => exact ⟨rfl, h⟩
    · rintro ⟨rfl, h⟩
      exact .bracketed (free_of_isSpecial hd) h
  | false =>
    have hpiece : literal d = .char d := if_neg (by simp [hd])
    rw [hpiece]
    constructor
    · intro h
      cases h with
      | char h => exact ⟨rfl, h⟩
    · rintro ⟨rfl, h⟩
      exact .char h

theorem not_matches_literal_nil {c : Char} {pieces : List GlobPiece} :
    ¬ Matches options atStart (literal c :: pieces) [] := by
  unfold literal
  split <;> exact nofun

theorem matches_literal_iff {ext : List Char} :
    Matches options atStart (ext.map literal) s ↔ s = ext := by
  induction ext generalizing atStart s with
  | nil =>
    constructor
    · intro h
      cases h
      rfl
    · rintro rfl
      exact .nil
  | cons d ext ih =>
    rw [List.map_cons]
    cases s with
    | nil => exact iff_of_false not_matches_literal_nil (List.cons_ne_nil d ext).symm
    | cons c s => rw [matches_literal_cons, ih, List.cons.injEq]

/-- A star stands for any run of characters that has no slash and does not begin with the point of a
hidden name. The induction is on the text, since the star takes one character after the other. -/
theorem matches_star_literal_iff (hslash : options.requireLiteralSeparator = true)
    (hpoint : options.requireLiteralLeadingDot = true) {ext : List Char} :
    Matches options atStart (.star :: ext.map literal) s ↔
      ∃ front, s = front ++ ext ∧ '/' ∉ front ∧ (atStart = true → front.head? ≠ some '.') := by
  constructor
  · intro h
    induction s generalizing atStart with
    | nil =>
      cases h with
      | skip h => exact ⟨[], matches_literal_iff.1 h, List.not_mem_nil, fun _ => nofun⟩
    | cons c s ih =>
      cases h with
      | skip h => exact ⟨[], matches_literal_iff.1 h, List.not_mem_nil, fun _ => nofun⟩
      | more hfree h =>
        obtain ⟨front, rfl, hnone, _⟩ := ih h
        refine ⟨c :: front, rfl, ?_, fun hstart => ?_⟩
        · rw [List.mem_cons, not_or]
          exact ⟨(hfree.1 hslash).symm, hnone⟩
        · simpa using hfree.2 hpoint hstart
  · rintro ⟨front, rfl, hnone, hhidden⟩
    induction front generalizing atStart with
    | nil => exact .skip (matches_literal_iff.2 rfl)
    | cons c front ih =>
      rw [List.mem_cons, not_or] at hnone
      have hplain : c ≠ '/' := Ne.symm hnone.1
      refine .more ⟨fun _ => hplain, fun _ hstart => ?_⟩ (ih hnone.2 fun hbehind => ?_)
      · simpa using hhidden hstart
      · exact absurd (beq_iff_eq.1 hbehind) hplain

end GlobPiece

/-! ## Names in listings -/

/-- Says that what a source lists has names: a slash would make two of one. -/
def Source.ListsNames (source : Source) : Prop :=
  ∀ p entries, source.list p = .ok entries → ∀ e ∈ entries, '/' ∉ e.fileName.toList

namespace Memory

theorem Named.listsNames {m : Memory} (h : m.Named) : m.source.ListsNames := by
  intro p entries hlist e he
  have hlisted : m.list p = .ok entries := hlist
  cases hp : p.location? with
  | none =>
    rw [(refuses_of_none hp).list] at hlist
    cases hlist
  | some l =>
    rw [list_of_location hp] at hlisted
    split at hlisted
    · cases hlisted
      have hparent := (mem_entriesAt he).1
      refine IsName.noSlash ((h.holds he).proper e.fileName ?_)
      rw [Location.eq_of_parent? hparent]
      exact List.mem_append_right l (List.mem_singleton_self _)
    · cases hlisted

end Memory

namespace Directory

theorem listsNames {d : Disk} (h : d.Named) (dir : Directory) (walker : Walker) :
    (dir.source d walker).ListsNames := by
  intro p entries hlist e he
  obtain ⟨l, names, found, _, hnames, hfound, rfl⟩ := list_eq_ok hlist
  have hmem : e.fileName ∈ found.map Entry.fileName :=
    List.mem_map_of_mem (List.mem_mergeSort.1 he)
  rw [fileNames_of_entries names hfound] at hmem
  exact (h.isName_of_names hnames _ hmem).noSlash

end Directory

/-! ## Layouts -/

namespace CommonBase

variable {glob : Glob} {ext : String}

/-- Says that a name is one of a layout: it ends in the extension, and if it is hidden it is nothing
else than the extension. -/
def IsLayoutName (ext name : String) : Prop :=
  ext.toList <:+ name.toList ∧ (name.toList.head? ≠ some '.' ∨ name = ext)

instance (ext name : String) : Decidable (IsLayoutName ext name) :=
  inferInstanceAs (Decidable (_ <:+ _ ∧ (_ ≠ _ ∨ _ = _)))

/-- A name without slashes is one of a layout if something that does not hide it stands in front of
the extension. -/
theorem isLayoutName_iff {name : String} (hname : '/' ∉ name.toList) :
    IsLayoutName ext name ↔
      ∃ front, name.toList = front ++ ext.toList ∧ '/' ∉ front ∧ front.head? ≠ some '.' := by
  unfold IsLayoutName
  constructor
  · rintro ⟨⟨front, hfront⟩, hhidden⟩
    refine ⟨front, hfront.symm, fun hmem => ?_, ?_⟩
    · exact hname (hfront ▸ List.mem_append_left _ hmem)
    · cases front with
      | nil => simp
      | cons c front =>
        rcases hhidden with hhidden | hwhole
        · rwa [← hfront] at hhidden
        · rw [hwhole] at hfront
          exact absurd (List.append_left_eq_self.1 hfront) (List.cons_ne_nil c front)
  · rintro ⟨front, hfront, _, hhidden⟩
    refine ⟨⟨front, hfront.symm⟩, ?_⟩
    cases front with
    | nil => exact Or.inr (String.toList_inj.1 hfront)
    | cons c front =>
      rw [hfront]
      exact Or.inl hhidden

/-- Whatever the extension, there is a pattern for it, and this has one piece for each character. -/
theorem exists_layoutPattern? (h : glob.Documented) (ext : String) :
    ∃ pattern, layoutPattern? glob ext = some pattern ∧
      ∀ options name, options.caseSensitive = true →
        (pattern options name = true ↔
          GlobPiece.Matches options true (.star :: ext.toList.map GlobPiece.literal) name.toList) := by
  refine h.pattern (.star :: ext.toList.map GlobPiece.literal) ("*" ++ glob.escape ext) ⟨?_, ?_⟩ ?_
  · cases ext.toList with
    | nil => simp
    | cons c _ => simpa using GlobPiece.literal_ne_star c
  · exact GlobPiece.readable_literal ext.toList
  · have hpieces : (ext.toList.map GlobPiece.literal).flatMap GlobPiece.text
        = (glob.escape ext).toList := by
      rw [List.flatMap_map, h.escape]
      exact congrArg ext.toList.flatMap (funext GlobPiece.text_literal)
    rw [String.toList_append, List.flatMap_cons, hpieces]
    rfl

/-- The pattern for the names of layouts matches just these. -/
theorem exists_pattern_isLayoutName (h : glob.Documented) (ext : String) :
    ∃ pattern, layoutPattern? glob ext = some pattern ∧
      ∀ name, '/' ∉ name.toList → (pattern layoutOptions name = true ↔ IsLayoutName ext name) := by
  obtain ⟨pattern, hpattern, hmatches⟩ := exists_layoutPattern? h ext
  refine ⟨pattern, hpattern, fun name hname => ?_⟩
  rw [hmatches layoutOptions name rfl, GlobPiece.matches_star_literal_iff rfl rfl,
    isLayoutName_iff hname]
  exact exists_congr fun _ => and_congr_right fun _ => and_congr_right fun _ => forall_prop_of_true rfl

theorem isLayout_iff (h : glob.Documented) {e : Entry} (hname : '/' ∉ e.fileName.toList) :
    isLayout glob ext e = true ↔ e.kind = .file ∧ IsLayoutName ext e.fileName := by
  obtain ⟨pattern, hpattern, hmatches⟩ := exists_pattern_isLayoutName h ext
  unfold isLayout
  rw [hpattern, Option.any_some, Bool.and_eq_true, decide_eq_true_iff, hmatches _ hname]

/-- For a name that is not hidden only its end counts. -/
theorem isLayoutName_iff_endsName {name : String} (h : name.toList.head? ≠ some '.') :
    IsLayoutName ext name ↔ Extension.endsName ext name = true := by
  unfold IsLayoutName Extension.endsName
  rw [and_iff_left (Or.inl h), List.isSuffixOf_iff_suffix]

/-- An entry that is not hidden is a layout where it would be a partial. -/
theorem isLayout_eq_isPartial (h : glob.Documented) {e : Entry}
    (hname : e.path.fileName? = some e.fileName) (hshown : e.fileName.toList.head? ≠ some '.') :
    isLayout glob ext e = isPartial ext e := by
  have hslash : '/' ∉ e.fileName.toList := (Path.isName_of_fileName? hname).noSlash
  have hend : Extension.endsPath ext e.path = Extension.endsName ext e.fileName := by
    unfold Extension.endsPath
    rw [hname]
  rw [Bool.eq_iff_iff, isLayout_iff h hslash, isLayoutName_iff_endsName hshown, isPartial, hend,
    Bool.and_eq_true, decide_eq_true_iff]

theorem layoutFiles_of_list {id : SourceId} {source : Source} {entries : List Entry}
    (hmeta : source.metadata layoutsDir = .ok .directory)
    (hlist : source.list layoutsDir = .ok entries) :
    (layoutFiles glob id source ext).result
      = .ok ((entries.filter (isLayout glob ext)).map Entry.path) := by
  have hanswers : Answers source layoutsDir := by
    intro e he
    rw [hmeta] at he
    cases he
  rw [layoutFiles_eq_ok_iff, layouts_of_list hmeta hlist]
  exact ⟨hanswers, fun _ => ⟨entries, hlist⟩, rfl⟩

/-- **Layouts are chosen by the literal end of their names.** Let a matcher keep its promises.
Whatever the extension, and whatever special characters it has, there is a pattern for it, and this
matches the names that end in the extension, but of the hidden ones only the extension itself. When
the directory for layouts is listed, the layouts are the files in it with such names, in the order of
the listing; what is listed has names, in memory and on a disk. So an entry whose name is not hidden
is taken for a layout exactly if it would be taken for a partial elsewhere. -/
theorem layoutFiles_literal (h : glob.Documented) (ext : String) :
    (∃ pattern, layoutPattern? glob ext = some pattern ∧
        ∀ name, '/' ∉ name.toList →
          (pattern layoutOptions name = true ↔ IsLayoutName ext name)) ∧
      (∀ id source entries, source.ListsNames → source.metadata layoutsDir = .ok .directory →
        source.list layoutsDir = .ok entries →
        (layoutFiles glob id source ext).result
          = .ok ((entries.filter fun e =>
              e.kind = .file ∧ IsLayoutName ext e.fileName).map Entry.path)) ∧
      (∀ changes, (Memory.ofChanges changes).source.ListsNames) ∧
      (∀ (dir : Directory) (d : Disk) (walker : Walker), d.Named →
        (dir.source d walker).ListsNames) ∧
      ∀ e : Entry, e.path.fileName? = some e.fileName → e.fileName.toList.head? ≠ some '.' →
        isLayout glob ext e = isPartial ext e := by
  refine ⟨exists_pattern_isLayoutName h ext, ?_,
    fun changes => (Memory.named_ofChanges changes).listsNames,
    fun dir d walker hd => Directory.listsNames hd dir walker, fun _ => isLayout_eq_isPartial h⟩
  intro id source entries hnames hmeta hlist
  rw [layoutFiles_of_list hmeta hlist]
  have hsame : ∀ e ∈ entries,
      isLayout glob ext e = decide (e.kind = .file ∧ IsLayoutName ext e.fileName) := by
    intro e he
    have hslash : '/' ∉ e.fileName.toList := hnames _ _ hlist e he
    rw [Bool.eq_iff_iff, decide_eq_true_iff]
    exact isLayout_iff h hslash
  rw [List.filter_congr hsame]

/-- A source with brackets in the names of its layouts, hidden ones and a directory among them. -/
def bracketedLayouts : Source where
  metadata _ := .ok .directory
  list _ := .ok [⟨["layouts", ".[x].html"], .file⟩, ⟨["layouts", ".base.[x].html"], .file⟩,
    ⟨["layouts", "all.[x].html"], .file⟩, ⟨["layouts", "base.x.html"], .file⟩,
    ⟨["layouts", "more.[x].html"], .directory⟩, ⟨["layouts", "page.[x].html"], .file⟩]
  read p := .error (.notFound p)
  walk _ := .ok []
  reportsWalks := false

/-- Brackets in an extension stand for themselves. -/
theorem layoutFiles_literal_bracketed :
    Glob.plain.Documented ∧ bracketedLayouts.ListsNames
      ∧ bracketedLayouts.metadata layoutsDir = .ok .directory
      ∧ (layoutFiles .plain .root bracketedLayouts ".[x].html").result = .ok
        [⟨"layouts/.[x].html"⟩, ⟨"layouts/all.[x].html"⟩, ⟨"layouts/page.[x].html"⟩]
      ∧ isLayout .plain ".[x].html" ⟨["layouts", "all.[x].html"], .file⟩
        = isPartial ".[x].html" ⟨["layouts", "all.[x].html"], .file⟩ := by
  obtain ⟨_, hfiles, _, _, hpartial⟩ := layoutFiles_literal Glob.documented_plain ".[x].html"
  have hnames : bracketedLayouts.ListsNames := by
    intro p entries hlist
    cases hlist
    decide +kernel
  refine ⟨Glob.documented_plain, hnames, rfl, ?_, hpartial _ (by decide +kernel) (by decide +kernel)⟩
  rw [hfiles .root bracketedLayouts _ hnames rfl rfl]
  exact congrArg Except.ok (by decide +kernel)

end CommonBase

end Stencil
