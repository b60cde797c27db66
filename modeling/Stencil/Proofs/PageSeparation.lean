/-
Pages that share an identifier.

An identifier is put together from three texts: the name of the source with a colon behind it, the
names that lead to the file with slashes between them, and an extension taken off the end. Each of
these steps can be undone. Names hold no slash, so a joined text falls apart at its slashes in one
way only; the extension is the same for all pages; and since settings refuse a source whose name
holds a colon, the first colon of an identifier ends the name of its source.

The last step says nothing about the root, whose pages have no source name in front: a file of the
root may itself be called like a page of a named source. That is the only way in which two pages of a
site get one identifier, and the main statement says so.
-/
import Stencil.Proofs.ConfiguredSources
import Stencil.Proofs.PageNames

set_option autoImplicit false

namespace Stencil

open Stencil.Runs

/-! ## Undoing the steps -/

/-- A text that does not hold a character ends in front of the first one. -/
theorem append_cons_inj_of_not_mem {α : Type} {c : α} {a a' b b' : List α} (ha : c ∉ a)
    (ha' : c ∉ a') (h : a ++ c :: b = a' ++ c :: b') : a = a' ∧ b = b' := by
  induction a generalizing a' with
  | nil =>
    cases a' with
    | nil =>
      simp only [List.nil_append, List.cons.injEq, true_and] at h
      exact ⟨rfl, h⟩
    | cons d rest' =>
      -- Here the character would be the first of the other text.
      simp only [List.nil_append, List.cons_append, List.cons.injEq] at h
      simp [h.1] at ha'
  | cons d rest ih =>
    cases a' with
    | nil =>
      simp only [List.nil_append, List.cons_append, List.cons.injEq] at h
      simp [h.1] at ha
    | cons d' rest' =>
      simp only [List.cons_append, List.cons.injEq] at h
      simp only [List.mem_cons, not_or] at ha ha'
      obtain ⟨hrest, hb⟩ := ih ha.2 ha'.2 h.2
      rw [h.1, hrest]
      exact ⟨rfl, hb⟩

/-- Locations of proper names that are joined to the same text are the same. -/
theorem Location.eq_of_intercalate_eq {l l' : Location} (hl : l.Proper) (hl' : l'.Proper)
    (h : String.intercalate "/" l = String.intercalate "/" l') : l = l' := by
  have hpath : l.path = l'.path := by simp only [Location.path, h]
  have hsome : some l = some l' := by rw [← hl.location?_path, ← hl'.location?_path, hpath]
  exact Option.some.inj hsome

/-- What is left of a name without the extension is what stands in front of the extension. -/
theorem Extension.strip?_eq_some_iff {ext name stem : String} :
    strip? ext name = some stem ↔ name = stem ++ ext := by
  unfold strip? endsName
  constructor
  · intro h
    split at h
    · rename_i hends
      obtain ⟨front, hfront⟩ := List.isSuffixOf_iff_suffix.1 hends
      have hstem : String.ofList front = stem := by
        rw [← hfront, List.length_append, Nat.add_sub_cancel, List.take_left] at h
        exact Option.some.inj h
      rw [← String.toList_inj, String.toList_append, ← hstem, String.toList_ofList, hfront]
    · exact absurd h (by simp)
  · intro h
    have hends : ext.toList.isSuffixOf name.toList = true := by
      rw [h, String.toList_append]
      exact List.isSuffixOf_iff_suffix.2 (List.suffix_append _ _)
    rw [if_pos hends, h, String.toList_append, List.length_append, Nat.add_sub_cancel,
      List.take_left, String.ofList_toList]

/-! ## Identifiers -/

namespace SourceId

/-- The identifier of a page of a source, from what its path leaves without the extension. -/
def pageName (id : SourceId) (stem : String) : String :=
  match id.qualifier? with
  | some name => name ++ ":" ++ stem
  | none => stem

/-- Says that the name of a source, if it has one, holds no colon. -/
def Plain (id : SourceId) : Prop := ∀ name, id = .named name → ':' ∉ name.toList

theorem toList_pageName_named (name stem : String) :
    ((named name).pageName stem).toList = name.toList ++ ':' :: stem.toList := by
  have h : (named name).pageName stem = name ++ ":" ++ stem := rfl
  rw [h, String.toList_append, String.toList_append, List.append_assoc]
  rfl

/-- Pages with the same identifier are pages of one source, or of the root and another one. -/
theorem pageName_eq_cases {id id' : SourceId} (hid : id.Plain) (hid' : id'.Plain)
    {stem stem' : String} (h : id.pageName stem = id'.pageName stem') :
    (id = id' ∧ stem = stem')
      ∨ (∃ name, id = .root ∧ id' = .named name ∧ stem = name ++ ":" ++ stem')
      ∨ (∃ name, id' = .root ∧ id = .named name ∧ stem' = name ++ ":" ++ stem) := by
  cases id with
  | root =>
    cases id' with
    | root => exact Or.inl ⟨rfl, h⟩
    | named name' => exact Or.inr (Or.inl ⟨name', rfl, rfl, h⟩)
  | named name =>
    cases id' with
    | root => exact Or.inr (Or.inr ⟨name, rfl, rfl, h.symm⟩)
    | named name' =>
      -- Neither name holds a colon, so both end at the first colon of the identifier.
      have hlists := congrArg String.toList h
      rw [toList_pageName_named, toList_pageName_named] at hlists
      obtain ⟨hname, hstem⟩ :=
        append_cons_inj_of_not_mem (hid name rfl) (hid' name' rfl) hlists
      rw [String.toList_inj] at hname hstem
      exact Or.inl ⟨by rw [hname], hstem⟩

/-- A text without a colon names a source without one. -/
theorem plain_ofText {text : String} (h : ':' ∉ text.toList) : (ofText text).Plain := by
  intro name hname
  unfold ofText at hname
  split at hname
  · exact absurd hname (by simp)
  · rw [← named.inj hname]
    exact h

end SourceId

/-- The identifier of a page below the views, from the names that lead to it. -/
theorem PageId.ofPath?_eq_some_iff {id : SourceId} {dir p : Path} {l : Location} {ext k : String}
    (hp : p.parts = dir.parts ++ l.map .name) :
    ofPath? id dir p ext = some k
      ↔ ∃ stem, Extension.strip? ext (String.intercalate "/" l) = some stem ∧ isStem stem = true
        ∧ k = id.pageName stem := by
  have hnames : namesBelow? dir p = some l := namesBelow?_of_parts hp
  unfold ofPath?
  rw [hnames]
  show (Extension.strip? ext (String.intercalate "/" l) >>= _) = some k ↔ _
  cases hstrip : Extension.strip? ext (String.intercalate "/" l) with
  | none => simp
  | some stem =>
    have hleft : (if isStem stem = true then some (id.pageName stem) else none) = some k
        ↔ ∃ other, some stem = some other ∧ isStem other = true ∧ k = id.pageName other := by
      by_cases hstem : isStem stem = true
      · rw [if_pos hstem, Option.some.injEq]
        constructor
        · intro hk
          exact ⟨stem, rfl, hstem, hk.symm⟩
        · rintro ⟨other, hother, _, hk⟩
          rw [hk, Option.some.inj hother]
      · rw [if_neg hstem]
        simp [hstem]
    cases id with
    | root => exact hleft
    | named name => exact hleft

/-! ## Sources of settings -/

namespace Settings

/-- The sources of settings that are accepted have no colon in their names. -/
theorem plain_of_mem_directories {s : Settings} {base : Path} {dirs : Table SourceId Directory}
    (h : s.directories base = .ok dirs) {id : SourceId} (hid : id ∈ dirs.keys) : id.Plain := by
  obtain ⟨text, htext, rfl⟩ := (mem_keys_directories_iff h).1 hid
  exact SourceId.plain_ofText ((directories_eq_ok_iff.1 h).1.plain text htext)

end Settings

/-! ## Pages that share an identifier -/

namespace PageId

/-- Says that a page of the root is called like a page of a named source: without the extension, the
way to it is the name of that source, a colon, and the way to the other page. -/
def ShadowsNamed (ext : String) (id : SourceId) (l : Location) (id' : SourceId) (l' : Location) :
    Prop :=
  id = .root ∧ ∃ name stem, id' = .named name
    ∧ Extension.strip? ext (String.intercalate "/" l) = some (name ++ ":" ++ stem)
    ∧ Extension.strip? ext (String.intercalate "/" l') = some stem

/-- **Page identifiers separate sources.** Of the sources that settings name, whatever the extension,
two files below the views get one identifier only if they are the same file of the same source or if
one is a file of the root that is called like the other, which is in a named source. So pages of one
source never share an identifier, and neither do pages of two named sources. -/
theorem ofPath?_separates {s : Settings} {base : Path} {dirs : Table SourceId Directory}
    (haccepted : s.directories base = .ok dirs) {id id' : SourceId} (hid : id ∈ dirs.keys)
    (hid' : id' ∈ dirs.keys) {ext k : String} {p p' : Path} {l l' : Location}
    (hp : p.parts = Pages.viewsDir.parts ++ l.map .name)
    (hp' : p'.parts = Pages.viewsDir.parts ++ l'.map .name)
    (hk : ofPath? id Pages.viewsDir p ext = some k)
    (hk' : ofPath? id' Pages.viewsDir p' ext = some k) :
    ((id = id' ∧ l = l') ∨ ShadowsNamed ext id l id' l' ∨ ShadowsNamed ext id' l' id l)
      ∧ (id = id' → l = l')
      ∧ (id ≠ .root → id' ≠ .root → id = id' ∧ l = l') := by
  obtain ⟨stem, hstem, _, rfl⟩ := (ofPath?_eq_some_iff hp).1 hk
  obtain ⟨stem', hstem', _, hsame⟩ := (ofPath?_eq_some_iff hp').1 hk'
  have hcases : (id = id' ∧ l = l') ∨ ShadowsNamed ext id l id' l'
      ∨ ShadowsNamed ext id' l' id l := by
    have hplain := Settings.plain_of_mem_directories haccepted hid
    have hplain' := Settings.plain_of_mem_directories haccepted hid'
    rcases SourceId.pageName_eq_cases hplain hplain' hsame with
      ⟨hids, rfl⟩ | ⟨name, hroot, hnamed, rfl⟩ | ⟨name, hroot, hnamed, rfl⟩
    · -- Both ways are the same text in front of the extension, so they have the same names.
      rw [Extension.strip?_eq_some_iff] at hstem hstem'
      have hproper : ∀ {q : Path} {m : Location},
          q.parts = Pages.viewsDir.parts ++ m.map .name → m.Proper := by
        intro q m hq name hname
        apply Path.isName_of_mem_parts (p := q)
        rw [hq]
        exact List.mem_append_right _ (List.mem_map_of_mem hname)
      have hl := Location.eq_of_intercalate_eq (hproper hp) (hproper hp') (hstem.trans hstem'.symm)
      exact Or.inl ⟨hids, hl⟩
    · exact Or.inr (Or.inl ⟨hroot, name, stem', hnamed, hstem, hstem'⟩)
    · exact Or.inr (Or.inr ⟨hroot, name, stem, hnamed, hstem', hstem⟩)
  refine ⟨hcases, ?_, ?_⟩
  · intro hids
    rcases hcases with ⟨_, hl⟩ | ⟨hroot, name, _, hnamed, _⟩ | ⟨hroot, name, _, hnamed, _⟩
    · exact hl
    · rw [← hids, hroot] at hnamed
      exact absurd hnamed (by simp)
    · rw [hids, hroot] at hnamed
      exact absurd hnamed (by simp)
  · intro hne hne'
    rcases hcases with hequal | ⟨hroot, _⟩ | ⟨hroot, _⟩
    · exact hequal
    · exact absurd hroot hne
    · exact absurd hroot hne'

/-- Settings with the root and a source of their own for a blog. -/
def blogSettings : Settings :=
  ⟨none, Table.ofList [("root", ⟨"site"⟩), ("blog", ⟨"/srv/blog"⟩)]⟩

/-- A file of the root that is called like a page of the blog shares its identifier. -/
theorem ofPath?_separates_blog :
    ∃ dirs, blogSettings.directories ⟨"/project"⟩ = .ok dirs
      ∧ .root ∈ dirs.keys ∧ .named "blog" ∈ dirs.keys
      ∧ ofPath? .root Pages.viewsDir ⟨"views/blog:a.html"⟩ ".html" = some "blog:a"
      ∧ ofPath? (.named "blog") Pages.viewsDir ⟨"views//a.html"⟩ ".html" = some "blog:a"
      ∧ ShadowsNamed ".html" .root ["blog:a.html"] (.named "blog") ["a.html"] := by
  have hkeys : (blogSettings.directories ⟨"/project"⟩).toOption.map Table.keys
      = some [.root, .named "blog"] := by decide +kernel
  obtain ⟨dirs, hoption, hkeys⟩ := Option.map_eq_some_iff.1 hkeys
  have hdirs : blogSettings.directories ⟨"/project"⟩ = .ok dirs := toOption_eq_some.1 hoption
  have hroot : SourceId.root ∈ dirs.keys := by simp [hkeys]
  have hblog : SourceId.named "blog" ∈ dirs.keys := by simp [hkeys]
  have hp : Path.parts ⟨"views/blog:a.html"⟩
      = Pages.viewsDir.parts ++ List.map PathPart.name ["blog:a.html"] := by decide +kernel
  have hp' : Path.parts ⟨"views//a.html"⟩
      = Pages.viewsDir.parts ++ List.map PathPart.name ["a.html"] := by decide +kernel
  have hk : ofPath? .root Pages.viewsDir ⟨"views/blog:a.html"⟩ ".html" = some "blog:a" := by
    decide +kernel
  have hk' : ofPath? (.named "blog") Pages.viewsDir ⟨"views//a.html"⟩ ".html"
      = some "blog:a" := by decide +kernel
  refine ⟨dirs, hdirs, hroot, hblog, hk, hk', ?_⟩
  obtain ⟨hcases, _⟩ := ofPath?_separates hdirs hroot hblog hp hp' hk hk'
  rcases hcases with ⟨hsame, _⟩ | hshadows | ⟨hnamed, _⟩
  · exact absurd hsame (by decide)
  · exact hshadows
  · exact absurd hnamed (by decide)

end PageId

end Stencil
