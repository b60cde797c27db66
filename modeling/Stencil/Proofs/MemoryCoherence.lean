/-
When a tree in memory is a tree.

A listing says of what a directory holds whether it is a file or a directory, and a question about
the path of an entry should give the same answer. Files and directories in memory are kept in two
tables, and no change of one looks at the other, so both may come to hold the same location, and a
file may even be put where the root is. Then the file hides the directory from questions but not from
listings.

This is the only way in which the answers of a tree fail to fit together, and the main statement
tells from the changes that were made whether it has happened: a location counts as a directory from
the first change that passes it, for removing a file leaves the directories above it, and as a file
as long as the last change that concerns it there is an addition.
-/
import Mathlib.Data.List.Induction
import Stencil.Proofs.MemoryTrees

set_option autoImplicit false

namespace Stencil.Memory

variable {m : Memory}

/-! ## Answers that fit together -/

/-- Says that the answers of a tree fit together: the root is a directory, every entry of a listing
stands where it says, no path is listed twice, and only directories have a listing. -/
structure Coherent (m : Memory) : Prop where
  root : ∀ p, p.location? = some [] → m.metadata p = .ok .directory
  entries : ∀ p es, m.list p = .ok es → ∀ e ∈ es, m.metadata e.path = .ok e.kind
  distinct : ∀ p es, m.list p = .ok es → (es.map Entry.path).Nodup
  directories : ∀ p es, m.list p = .ok es → m.metadata p = .ok .directory

/-- Says that no location holds both a file and a directory, the root being a directory. -/
def Disjoint (m : Memory) : Prop := ∀ l, m.files.contains l = true → m.isDirectory l = false

theorem metadata_of_location {p : Path} {l : Location} (h : p.location? = some l) :
    m.metadata p = if m.files.contains l then .ok .file
      else if m.isDirectory l then .ok .directory else .error (.notFound p) := by
  unfold metadata Path.location
  rw [h]
  rfl

theorem read_of_location {p : Path} {l : Location} (h : p.location? = some l) :
    m.read p = match m.files.get? l with
      | some text => .ok text
      | none => .error (.notFound p) := by
  unfold read Path.location
  rw [h]
  rfl

theorem list_eq_ok_iff {p : Path} {es : List Entry} :
    m.list p = .ok es
      ↔ ∃ l, p.location? = some l ∧ m.isDirectory l = true ∧ es = m.entriesAt l := by
  unfold list Path.location
  cases hp : p.location? with
  | none =>
    constructor
    · intro h
      exact absurd h (by simp [bind, Except.bind])
    · rintro ⟨l, hl, _⟩
      exact absurd hl (by simp)
  | some l =>
    show (if m.isDirectory l = true then Except.ok (m.entriesAt l)
      else .error (FileError.notFound p)) = _ ↔ _
    constructor
    · intro h
      split at h
      · rename_i hdir
        exact ⟨l, rfl, hdir, (Except.ok.inj h).symm⟩
      · exact absurd h (by simp)
    · rintro ⟨l', hl', hdir, rfl⟩
      rw [Option.some.inj hl', if_pos hdir]

/-- Where no location holds both, a directory is what a question about it says. -/
theorem Disjoint.metadata_of_isDirectory (h : m.Disjoint) {p : Path} {l : Location}
    (hp : p.location? = some l) (hdir : m.isDirectory l = true) :
    m.metadata p = .ok .directory := by
  have hfile : ¬ m.files.contains l = true := by
    intro hfile
    rw [h l hfile] at hdir
    exact Bool.false_ne_true hdir
  rw [metadata_of_location hp, if_neg hfile, if_pos hdir]

/-- An entry of a listing has a proper location, so its path leads back to it. -/
theorem Named.location?_of_mem_entriesAt (hm : m.Named) {dir : Location} {e : Entry}
    (he : e ∈ m.entriesAt dir) : e.path.location? = some e.location :=
  (hm.holds he).proper.location?_path

theorem Named.metadata_of_mem_entriesAt (hm : m.Named) (h : m.Disjoint) {dir : Location}
    {e : Entry} (he : e ∈ m.entriesAt dir) : m.metadata e.path = .ok e.kind := by
  have hpath := hm.location?_of_mem_entriesAt he
  obtain ⟨_, ⟨hkind, hkey⟩ | ⟨hkind, hkey⟩⟩ := mem_entriesAt he
  · have hfile : m.files.contains e.location = true := Table.mem_keys_iff.1 hkey
    rw [metadata_of_location hpath, if_pos hfile, hkind]
  · have hcontains : m.directories.contains e.location = true := Table.mem_keys_iff.1 hkey
    have hdir : m.isDirectory e.location = true := by simp [isDirectory, hcontains]
    rw [hkind]
    exact h.metadata_of_isDirectory hpath hdir

/-- Where no location holds both a file and a directory, nothing is listed twice. The files and the
directories of a listing come from tables, which have every location once. -/
theorem Disjoint.nodup_entriesAt (h : m.Disjoint) (dir : Location) :
    ((m.entriesAt dir).map Entry.location).Nodup := by
  have hperm : ((m.entriesAt dir).map Entry.location).Perm
      (children dir m.files.keys ++ children dir m.directories.keys) := by
    have hmerge : (m.entriesAt dir).Perm (((children dir m.files.keys).map fun l => ⟨l, .file⟩)
        ++ (children dir m.directories.keys).map fun l => ⟨l, .directory⟩) :=
      List.merge_perm_append fun a b : Entry => !SortKey.before b.fileName a.fileName
    have hlocations := hmerge.map Entry.location
    simpa [List.map_append, List.map_map, Function.comp_def] using hlocations
  have hkeys : ∀ {α : Type} (t : Table Location α), (children dir t.keys).Nodup := by
    intro α t
    exact (t.keys_sorted.imp SortKey.ne_of_before).sublist List.filter_sublist
  rw [hperm.nodup_iff, List.nodup_append]
  refine ⟨hkeys _, hkeys _, ?_⟩
  intro l hfile l' hdir hsame
  have hcontains : m.files.contains l = true := Table.mem_keys_iff.1 (List.mem_filter.1 hfile).1
  have hdir' : m.directories.contains l = true := by
    rw [hsame]
    exact Table.mem_keys_iff.1 (List.mem_filter.1 hdir).1
  have hnone := h l hcontains
  simp [isDirectory, hdir'] at hnone

theorem Named.nodup_paths (hm : m.Named) (h : m.Disjoint) (dir : Location) :
    ((m.entriesAt dir).map Entry.path).Nodup := by
  have hlocations := List.pairwise_map.1 (h.nodup_entriesAt dir)
  apply List.pairwise_map.2
  refine hlocations.imp_of_mem ?_
  intro a b ha hb hne hpath
  -- Entries with the same path would be at the location to which it leads.
  have ha' := hm.location?_of_mem_entriesAt ha
  rw [hpath, hm.location?_of_mem_entriesAt hb] at ha'
  exact hne (Option.some.inj ha').symm

/-- The answers of a tree fit together exactly if no location holds both a file and a directory. -/
theorem Named.coherent_iff (hm : m.Named) : m.Coherent ↔ m.Disjoint := by
  constructor
  · intro h l hfile
    -- A file that is also a directory would have a listing.
    cases hdir : m.isDirectory l with
    | false => rfl
    | true =>
      obtain ⟨text, htext⟩ := Option.isSome_iff_exists.1 hfile
      have hpath : l.path.location? = some l := (hm.files l text htext).location?_path
      have hkind := h.directories l.path _ (list_eq_ok_iff.2 ⟨l, hpath, hdir, rfl⟩)
      rw [metadata_of_location hpath, if_pos hfile] at hkind
      exact absurd hkind (by simp)
  · intro h
    refine ⟨?_, ?_, ?_, ?_⟩
    · intro p hp
      exact h.metadata_of_isDirectory hp rfl
    · intro p es hlist e he
      obtain ⟨l, _, _, rfl⟩ := list_eq_ok_iff.1 hlist
      exact hm.metadata_of_mem_entriesAt h he
    · intro p es hlist
      obtain ⟨l, _, _, rfl⟩ := list_eq_ok_iff.1 hlist
      exact hm.nodup_paths h l
    · intro p es hlist
      obtain ⟨l, hp, hdir, _⟩ := list_eq_ok_iff.1 hlist
      exact h.metadata_of_isDirectory hp hdir

/-! ## What changes leave behind -/

namespace Change

/-- Says that a change makes a directory of a location or passes it as one. -/
def Makes : Change → Location → Prop
  | .addFile p _, l => ∃ file, p.location? = some file ∧ l <+: file.dropLast
  | .addDirectory p, l => ∃ dir, p.location? = some dir ∧ l <+: dir
  | .removeFile _, _ => False

/-- Says that a change adds a file at a location. -/
def Adds (c : Change) (l : Location) : Prop :=
  ∃ p text, c = .addFile p text ∧ p.location? = some l

/-- Says that a change removes the file at a location. -/
def Removes (c : Change) (l : Location) : Prop :=
  ∃ p, c = .removeFile p ∧ p.location? = some l

end Change

section

variable {p : Path} {l : Location}

theorem addFile_of_location (h : p.location? = some l) (text : String) :
    m.addFile p text = { m.addLocation l.dropLast with files := m.files.insert l text } := by
  unfold addFile
  rw [h]
  rfl

theorem addFile_of_outside (h : p.location? = none) (text : String) : m.addFile p text = m := by
  unfold addFile
  rw [h]

theorem addDirectory_of_location (h : p.location? = some l) :
    m.addDirectory p = m.addLocation l := by
  unfold addDirectory
  rw [h]

theorem addDirectory_of_outside (h : p.location? = none) : m.addDirectory p = m := by
  unfold addDirectory
  rw [h]

theorem removeFile_of_location (h : p.location? = some l) :
    m.removeFile p = { m with files := m.files.erase l } := by
  unfold removeFile
  rw [h]

theorem removeFile_of_outside (h : p.location? = none) : m.removeFile p = m := by
  unfold removeFile
  rw [h]

end

/-- Directories are added by changes, and never taken away. -/
theorem isDirectory_change {c : Change} {l : Location} :
    (m.change c).isDirectory l = true ↔ m.isDirectory l = true ∨ c.Makes l := by
  cases c with
  | addFile p text =>
    cases hp : p.location? with
    | none => simp [change, addFile_of_outside hp, Change.Makes, hp]
    | some file =>
      -- Putting the file in place concerns the other table only.
      have hdirs : (m.addFile p text).isDirectory l = (m.addLocation file.dropLast).isDirectory l := by
        rw [addFile_of_location hp]
        rfl
      show (m.addFile p text).isDirectory l = true ↔ _
      rw [hdirs, isDirectory_addLocation]
      simp [Change.Makes, hp]
  | addDirectory p =>
    cases hp : p.location? with
    | none => simp [change, addDirectory_of_outside hp, Change.Makes, hp]
    | some dir =>
      show (m.addDirectory p).isDirectory l = true ↔ _
      rw [addDirectory_of_location hp, isDirectory_addLocation]
      simp [Change.Makes, hp]
  | removeFile p =>
    have hdirs : (m.removeFile p).isDirectory l = m.isDirectory l := by
      cases hp : p.location? with
      | none => rw [removeFile_of_outside hp]
      | some file =>
        rw [removeFile_of_location hp]
        rfl
    show (m.removeFile p).isDirectory l = true ↔ _
    rw [hdirs]
    simp [Change.Makes]

/-- A file is where the change puts it, or where there was one that the change does not remove. -/
theorem contains_files_change {c : Change} {l : Location} :
    (m.change c).files.contains l = true
      ↔ c.Adds l ∨ m.files.contains l = true ∧ ¬ c.Removes l := by
  cases c with
  | addFile p text =>
    show (m.addFile p text).files.contains l = true ↔ _
    cases hp : p.location? with
    | none =>
      rw [addFile_of_outside hp]
      simp [Change.Adds, Change.Removes, hp]
    | some file =>
      rw [addFile_of_location hp]
      by_cases hl : l = file
      · simp [Table.contains, Change.Adds, hp, hl]
      · simp [Table.contains, Change.Adds, Change.Removes, hp, hl, Ne.symm hl]
  | addDirectory p =>
    have hfiles : (m.addDirectory p).files = m.files := by
      cases hp : p.location? with
      | none => rw [addDirectory_of_outside hp]
      | some dir =>
        rw [addDirectory_of_location hp]
        rfl
    show (m.addDirectory p).files.contains l = true ↔ _
    rw [hfiles]
    simp [Change.Adds, Change.Removes]
  | removeFile p =>
    show (m.removeFile p).files.contains l = true ↔ _
    cases hp : p.location? with
    | none =>
      rw [removeFile_of_outside hp]
      simp [Change.Adds, Change.Removes, hp]
    | some file =>
      rw [removeFile_of_location hp]
      by_cases hl : l = file
      · simp [Table.contains, Change.Adds, Change.Removes, hp, hl]
      · simp [Table.contains, Change.Adds, Change.Removes, hp, hl, Ne.symm hl]

/-- Says that changes leave a file at a location: one of them adds it, and none behind that one
removes it. -/
def LeavesFile (changes : List Change) (l : Location) : Prop :=
  ∃ before c after, changes = before ++ c :: after ∧ c.Adds l ∧ ∀ c' ∈ after, ¬ c'.Removes l

theorem leavesFile_concat_iff {changes : List Change} {c : Change} {l : Location} :
    LeavesFile (changes ++ [c]) l ↔ c.Adds l ∨ LeavesFile changes l ∧ ¬ c.Removes l := by
  constructor
  · rintro ⟨before, c', after, hsplit, hadds, hafter⟩
    rcases List.eq_nil_or_concat after with rfl | ⟨others, last, rfl⟩
    · obtain ⟨_, hc⟩ := List.append_inj' hsplit rfl
      rw [List.cons.injEq] at hc
      exact Or.inl (hc.1 ▸ hadds)
    · rw [List.concat_eq_append] at hsplit hafter
      rw [← List.cons_append, ← List.append_assoc] at hsplit
      obtain ⟨hchanges, hc⟩ := List.append_inj' hsplit rfl
      rw [List.cons.injEq] at hc
      refine Or.inr ⟨⟨before, c', others, hchanges, hadds, ?_⟩, ?_⟩
      · intro c'' hc''
        exact hafter c'' (List.mem_append_left _ hc'')
      · rw [hc.1]
        exact hafter last (by simp)
  · rintro (hadds | ⟨⟨before, c', after, rfl, hadds, hafter⟩, hkeeps⟩)
    · exact ⟨changes, c, [], rfl, hadds, by simp⟩
    · refine ⟨before, c', after ++ [c], by simp, hadds, ?_⟩
      intro c'' hc''
      rcases List.mem_append.1 hc'' with hold | hnew
      · exact hafter c'' hold
      · rw [List.mem_singleton.1 hnew]
        exact hkeeps

theorem ofChanges_concat (changes : List Change) (c : Change) :
    ofChanges (changes ++ [c]) = (ofChanges changes).change c := by
  simp [ofChanges]

/-- The files of a tree, from the changes that were made. The induction is on the changes from the
last one, which alone decides about the locations that it concerns. -/
theorem contains_files_ofChanges (changes : List Change) (l : Location) :
    (ofChanges changes).files.contains l = true ↔ LeavesFile changes l := by
  induction changes using List.reverseRecOn with
  | nil =>
    constructor
    · intro h
      exact absurd h Bool.false_ne_true
    · rintro ⟨before, c, after, hsplit, _⟩
      exact absurd hsplit (by simp)
  | append_singleton changes c ih =>
    rw [ofChanges_concat, contains_files_change, leavesFile_concat_iff, ih]

/-- The directories of a tree, from the changes that were made. -/
theorem isDirectory_ofChanges (changes : List Change) (l : Location) :
    (ofChanges changes).isDirectory l = true ↔ l = [] ∨ ∃ c ∈ changes, c.Makes l := by
  induction changes using List.reverseRecOn with
  | nil => simp [ofChanges, isDirectory, empty, Table.contains]
  | append_singleton changes c ih =>
    rw [ofChanges_concat, isDirectory_change, ih]
    constructor
    · rintro ((hroot | ⟨c', hc', hmakes⟩) | hmakes)
      · exact Or.inl hroot
      · exact Or.inr ⟨c', List.mem_append_left _ hc', hmakes⟩
      · exact Or.inr ⟨c, by simp, hmakes⟩
    · rintro (hroot | ⟨c', hc', hmakes⟩)
      · exact Or.inl (Or.inl hroot)
      · rcases List.mem_append.1 hc' with hold | hnew
        · exact Or.inl (Or.inr ⟨c', hold, hmakes⟩)
        · exact Or.inr (List.mem_singleton.1 hnew ▸ hmakes)

/-! ## Trees that are trees -/

/-- **A tree is coherent exactly as long as no file is put in the place of a directory.** After any
changes of a tree without files, all its answers fit together if and only if no file that the changes
leave is at the root or at a location that one of the changes made or passed as a directory. -/
theorem coherent_ofChanges_iff (changes : List Change) :
    (ofChanges changes).Coherent
      ↔ ∀ l, LeavesFile changes l → l ≠ [] ∧ ∀ c ∈ changes, ¬ c.Makes l := by
  rw [(named_ofChanges changes).coherent_iff]
  apply forall_congr'
  intro l
  rw [contains_files_ofChanges, ← Bool.not_eq_true, isDirectory_ofChanges]
  simp only [not_or, not_exists, not_and]

/-- A file in the place of a directory, and one in the place of the root, break a tree apart: the
directory still has a listing, and a question about it says that it is a file. -/
theorem not_coherent_ofChanges :
    ¬ (ofChanges [.addFile ⟨"a/b.html"⟩ "below", .addFile ⟨"a"⟩ "above"]).Coherent
      ∧ ¬ (ofChanges [.addFile ⟨""⟩ "root"]).Coherent := by
  constructor
  · intro h
    have hboth := (named_ofChanges _).coherent_iff.1 h ["a"] (by decide +kernel)
    exact absurd hboth (by decide +kernel)
  · intro h
    have hroot := (named_ofChanges _).coherent_iff.1 h [] (by decide +kernel)
    exact absurd hroot (by decide +kernel)

end Stencil.Memory
