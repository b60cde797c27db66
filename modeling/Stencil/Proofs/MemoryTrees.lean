/-
Trees in memory, as they come about.

A tree begins with nothing but its root, and files and directories are added and files removed, by
paths of any kind. After any such changes all names in the tree are proper ones: this is the
invariant of a change, and it makes the path of every entry lead back to the entry. So a listing can
be followed into its directories and files without a failure, and a walk succeeds wherever there is a
directory to start from.
-/
import Stencil.Files.Memory
import Stencil.Proofs.Listings
import Stencil.Proofs.Locations

set_option autoImplicit false

namespace Stencil.Memory

/-! ## Changes -/

/-- A change of a tree in memory. -/
inductive Change where
  | addFile (p : Path) (text : String)
  | addDirectory (p : Path)
  | removeFile (p : Path)

/-- The tree after a change. -/
def change (m : Memory) : Change → Memory
  | .addFile p text => m.addFile p text
  | .addDirectory p => m.addDirectory p
  | .removeFile p => m.removeFile p

/-- The tree that changes make of the one without files. -/
def ofChanges (changes : List Change) : Memory := changes.foldl change empty

/-- Says that all names in a tree are proper ones. -/
structure Named (m : Memory) : Prop where
  files : ∀ l text, m.files.get? l = some text → l.Proper
  directories : ∀ l, m.directories.contains l = true → l.Proper

theorem named_empty : Named empty :=
  ⟨fun _ _ h => absurd h.symm (Option.some_ne_none _), fun _ h => absurd h Bool.false_ne_true⟩

/-- The way to a location passes its beginnings, the empty one apart. -/
theorem mem_steps_iff {above l step : Location} :
    step ∈ steps above l ↔ ∃ names, names ≠ [] ∧ names <+: l ∧ step = above ++ names := by
  induction l generalizing above with
  | nil =>
    constructor
    · intro h
      exact absurd h List.not_mem_nil
    · rintro ⟨names, hne, hprefix, _⟩
      exact absurd (List.prefix_nil.1 hprefix) hne
  | cons name rest ih =>
    rw [steps, List.mem_cons, ih]
    constructor
    · rintro (rfl | ⟨names, _, hprefix, rfl⟩)
      · exact ⟨[name], by simp, by simp, rfl⟩
      · exact ⟨name :: names, by simp, by simpa using hprefix, by simp⟩
    · rintro ⟨names, hne, hprefix, rfl⟩
      cases names with
      | nil => exact absurd rfl hne
      | cons first more =>
        obtain ⟨rfl, hmore⟩ := List.cons_prefix_cons.1 hprefix
        by_cases hnil : more = []
        · exact Or.inl (by rw [hnil])
        · exact Or.inr ⟨more, hnil, hmore, by simp⟩

theorem contains_foldl_insert {ds : Table Location Unit} {added : List Location} {l : Location} :
    (added.foldl (fun ds d => ds.insert d ()) ds).contains l = true
      ↔ ds.contains l = true ∨ l ∈ added := by
  induction added generalizing ds with
  | nil => simp
  | cons d rest ih =>
    have hinsert : (ds.insert d ()).contains l = true ↔ l = d ∨ ds.contains l = true := by
      simp only [Table.contains, Table.get?_insert]
      by_cases hd : l = d
      · simp [hd]
      · simp [hd]
    rw [List.foldl_cons, ih, hinsert, List.mem_cons, or_assoc, or_left_comm]

/-- A location that is added becomes a directory, and so does every one on the way to it. -/
theorem isDirectory_addLocation {m : Memory} {l x : Location} :
    (m.addLocation l).isDirectory x = true ↔ m.isDirectory x = true ∨ x <+: l := by
  have hroot : ∀ m : Memory, m.isDirectory x = true ↔ x = [] ∨ m.directories.contains x = true := by
    intro m
    simp [isDirectory]
  rw [hroot, hroot, addLocation, contains_foldl_insert, mem_steps_iff, or_assoc]
  by_cases hx : x = []
  · simp [hx]
  · simp [hx]

variable {m : Memory}

theorem Named.addLocation (h : m.Named) {l : Location} (hl : l.Proper) :
    (m.addLocation l).Named := by
  refine ⟨h.files, fun l' hl' => ?_⟩
  rcases contains_foldl_insert.1 hl' with hold | hnew
  · exact h.directories l' hold
  · obtain ⟨names, _, hprefix, rfl⟩ := mem_steps_iff.1 hnew
    exact hl.of_sublist hprefix.sublist

theorem Named.addDirectory (h : m.Named) (p : Path) : (m.addDirectory p).Named := by
  unfold Memory.addDirectory
  cases hp : p.location? with
  | none => exact h
  | some l => exact h.addLocation (Path.proper_of_location? hp)

theorem Named.addFile (h : m.Named) (p : Path) (text : String) : (m.addFile p text).Named := by
  unfold Memory.addFile
  cases hp : p.location? with
  | none => exact h
  | some l =>
    have hl : l.Proper := Path.proper_of_location? hp
    have hmade := h.addLocation (hl.of_sublist (List.dropLast_sublist l))
    refine ⟨fun l' text' hget => ?_, hmade.directories⟩
    rw [Table.get?_insert] at hget
    split at hget
    · rename_i heq
      rw [heq]
      exact hl
    · exact hmade.files l' text' hget

theorem Named.removeFile (h : m.Named) (p : Path) : (m.removeFile p).Named := by
  unfold Memory.removeFile
  cases hp : p.location? with
  | none => exact h
  | some l =>
    refine ⟨fun l' text hget => ?_, h.directories⟩
    rw [Table.get?_erase] at hget
    split at hget
    · exact absurd hget.symm (Option.some_ne_none text)
    · exact h.files l' text hget

theorem Named.change (h : m.Named) (c : Change) : (m.change c).Named := by
  cases c with
  | addFile p text => exact h.addFile p text
  | addDirectory p => exact h.addDirectory p
  | removeFile p => exact h.removeFile p

/-- All names are proper ones after any changes. -/
theorem named_ofChanges (changes : List Change) : (ofChanges changes).Named := by
  have hrun : ∀ (m : Memory), m.Named → (changes.foldl change m).Named := by
    induction changes with
    | nil => exact fun m hm => hm
    | cons c rest ih => exact fun m hm => ih (m.change c) (hm.change c)
  exact hrun empty named_empty

/-! ## Questions about a location

A path of proper names leads to its location, so what is asked about the path is answered there. -/

section

variable {l : Location}

theorem metadata_path (hl : l.Proper) :
    m.metadata l.path = if m.files.contains l then .ok .file
      else if m.isDirectory l then .ok .directory else .error (.notFound l.path) := by
  unfold Memory.metadata
  rw [hl.location_path]
  rfl

theorem read_path (hl : l.Proper) :
    m.read l.path = match m.files.get? l with
      | some text => .ok text
      | none => .error (.notFound l.path) := by
  unfold Memory.read
  rw [hl.location_path]
  rfl

theorem list_path (hl : l.Proper) (h : m.isDirectory l = true) :
    m.list l.path = .ok (m.entriesAt l) := by
  unfold Memory.list
  rw [hl.location_path]
  exact if_pos h

/-- If it cannot be said what stands at the path of a location, nothing does. -/
theorem isNotFound_of_metadata (hl : l.Proper) {e : FileError}
    (h : m.metadata l.path = .error e) : e.isNotFound = true := by
  rw [metadata_path hl] at h
  split at h
  · cases h
  · split at h
    · cases h
    · rw [← Except.error.inj h]
      rfl

theorem isDirectory_of_metadata (hl : l.Proper) (h : m.metadata l.path = .ok .directory) :
    m.isDirectory l = true := by
  rw [metadata_path hl] at h
  split at h
  · cases h
  · split at h
    · assumption
    · cases h

end

/-! ## Listings -/

/-- Says of an entry that it is in the tree, somewhere below a location. -/
structure Holds (m : Memory) (dir : Location) (e : Entry) : Prop where
  below : ∃ names : Location, names ≠ [] ∧ e.location = dir ++ names
  proper : e.location.Proper
  file : e.kind = .file → ∃ text, m.files.get? e.location = some text
  directory : e.kind = .directory → m.isDirectory e.location = true

theorem Holds.up {dir : Location} {names : Location} {e : Entry} (h : m.Holds (dir ++ names) e) :
    m.Holds dir e := by
  obtain ⟨more, hmore, hlocation⟩ := h.below
  refine ⟨⟨names ++ more, ?_, by rw [hlocation, List.append_assoc]⟩, h.proper, h.file, h.directory⟩
  exact List.append_ne_nil_of_right_ne_nil names hmore

/-- A file that is in the tree can be read by its path. -/
theorem Holds.exists_read {dir : Location} {e : Entry} (h : m.Holds dir e) (hfile : e.kind = .file) :
    ∃ text, m.read e.path = .ok text := by
  obtain ⟨text, htext⟩ := h.file hfile
  refine ⟨text, ?_⟩
  rw [Entry.path, read_path h.proper, htext]

theorem mem_entriesAt {dir : Location} {e : Entry} (h : e ∈ m.entriesAt dir) :
    e.location.parent? = some dir
      ∧ (e.kind = .file ∧ e.location ∈ m.files.keys
        ∨ e.kind = .directory ∧ e.location ∈ m.directories.keys) := by
  unfold entriesAt mergeByName at h
  rcases List.mem_merge.1 h with h | h
  · obtain ⟨l, hl, rfl⟩ := List.mem_map.1 h
    obtain ⟨hkey, hparent⟩ := List.mem_filter.1 hl
    exact ⟨by simpa using hparent, Or.inl ⟨rfl, hkey⟩⟩
  · obtain ⟨l, hl, rfl⟩ := List.mem_map.1 h
    obtain ⟨hkey, hparent⟩ := List.mem_filter.1 hl
    exact ⟨by simpa using hparent, Or.inr ⟨rfl, hkey⟩⟩

/-- What a listing has is in the tree. -/
theorem Named.holds (h : m.Named) {dir : Location} {e : Entry} (he : e ∈ m.entriesAt dir) :
    m.Holds dir e := by
  obtain ⟨hparent, hwhich⟩ := mem_entriesAt he
  have hbelow : ∃ names : Location, names ≠ [] ∧ e.location = dir ++ names :=
    ⟨[e.location.fileName], List.cons_ne_nil _ _, Location.eq_of_parent? hparent⟩
  rcases hwhich with ⟨hkind, hkey⟩ | ⟨hkind, hkey⟩
  · obtain ⟨text, htext⟩ := Option.isSome_iff_exists.1 (Table.mem_keys_iff.1 hkey)
    refine ⟨hbelow, h.files _ _ htext, fun _ => ⟨text, htext⟩, fun hdir => ?_⟩
    rw [hkind] at hdir
    cases hdir
  · have hcontains : m.directories.contains e.location = true := Table.mem_keys_iff.1 hkey
    refine ⟨hbelow, h.directories _ hcontains, fun hfile => ?_, fun _ => ?_⟩
    · rw [hkind] at hfile
      cases hfile
    · unfold isDirectory
      rw [hcontains, Bool.or_true]

/-! ## Walks -/

/-- A running maximum is at most a number if all that goes into it is. -/
theorem foldl_max_le_iff {α : Type} (f : α → Nat) (as : List α) (n bound : Nat) :
    as.foldl (fun n a => max n (f a)) n ≤ bound ↔ n ≤ bound ∧ ∀ a ∈ as, f a ≤ bound := by
  induction as generalizing n with
  | nil => simp
  | cons a as ih =>
    rw [List.foldl_cons, ih, List.forall_mem_cons, Nat.max_le, and_assoc]

theorem levels_le_iff {n : Nat} :
    m.levels ≤ n ↔ 1 ≤ n ∧ ∀ l ∈ m.directories.keys, l.length + 1 ≤ n :=
  foldl_max_le_iff _ _ _ _

theorem exists_levels (m : Memory) : ∃ n, m.levels = n + 1 :=
  ⟨m.levels - 1, by have := (levels_le_iff.1 (Nat.le_refl m.levels)).1; omega⟩

/-- In front of the other entries comes an entry with what is found below it, if that is found. -/
theorem expand_cons_of_ok {below : Path → Except FileError (List Entry)} {e : Entry}
    {rest inner others : List Entry}
    (hinner : (if e.kind = .directory then below e.path else .ok []) = .ok inner)
    (hothers : Source.expand below rest = .ok others) :
    Source.expand below (e :: rest) = .ok (e :: inner ++ others) := by
  unfold Source.expand
  by_cases hkind : e.kind = .directory
  · rw [if_pos hkind] at hinner ⊢
    rw [hinner, hothers]
    rfl
  · rw [if_neg hkind] at hinner ⊢
    rw [hothers, ← Except.ok.inj hinner]
    rfl

theorem expand_of_ok {f : Location → List Entry} {goDown : Path → Except FileError (List Entry)}
    {es : List Entry} (h : ∀ e ∈ es, e.kind = .directory → goDown e.path = .ok (f e.location)) :
    Source.expand goDown es
      = .ok (es.flatMap fun e => e :: if e.kind = .directory then f e.location else []) := by
  induction es with
  | nil => rfl
  | cons e es ih =>
    obtain ⟨hfirst, hrest⟩ := List.forall_mem_cons.1 h
    rw [List.flatMap_cons]
    apply expand_cons_of_ok _ (ih hrest)
    by_cases hkind : e.kind = .directory
    · rw [if_pos hkind, if_pos hkind]
      exact hfirst hkind
    · rw [if_neg hkind, if_neg hkind]

/-- Entries that are in the tree can be followed downwards, if their directories can. -/
theorem exists_expand {dir : Location} {below : Path → Except FileError (List Entry)}
    {entries : List Entry} (hentries : ∀ e ∈ entries, m.Holds dir e)
    (hbelow : ∀ e ∈ entries, e.kind = .directory →
      ∃ inner, below e.path = .ok inner ∧ ∀ i ∈ inner, m.Holds e.location i) :
    ∃ all, Source.expand below entries = .ok all ∧ ∀ e ∈ all, m.Holds dir e := by
  induction entries with
  | nil => exact ⟨[], rfl, fun e he => absurd he List.not_mem_nil⟩
  | cons e rest ih =>
    obtain ⟨others, hothers, hrest⟩ := ih (fun f hf => hentries f (List.mem_cons_of_mem e hf))
      fun f hf => hbelow f (List.mem_cons_of_mem e hf)
    have hinner : ∃ inner, (if e.kind = .directory then below e.path else .ok []) = .ok inner
        ∧ ∀ i ∈ inner, m.Holds dir i := by
      by_cases hkind : e.kind = .directory
      · obtain ⟨inner, hok, hin⟩ := hbelow e List.mem_cons_self hkind
        obtain ⟨names, _, hlocation⟩ := (hentries e List.mem_cons_self).below
        rw [if_pos hkind]
        exact ⟨inner, hok, fun i hi => Holds.up (hlocation ▸ hin i hi)⟩
      · rw [if_neg hkind]
        exact ⟨[], rfl, fun i hi => absurd hi List.not_mem_nil⟩
    obtain ⟨inner, hok, hin⟩ := hinner
    refine ⟨e :: inner ++ others, expand_cons_of_ok hok hothers, fun f hf => ?_⟩
    rcases List.mem_append.1 hf with hf | hf
    · rcases List.mem_cons.1 hf with rfl | hf
      · exact hentries f List.mem_cons_self
      · exact hin f hf
    · exact hrest f hf

/-- A walk from a directory succeeds, whatever the number of levels, and finds only what is in the
tree below. The induction is on the levels, and each level is a listing. -/
theorem Named.exists_walkBy (h : m.Named) (levels : Nat) {dir : Location} (hproper : dir.Proper)
    (hdir : m.isDirectory dir = true) :
    ∃ entries, Source.walkBy m.list levels dir.path = .ok entries
      ∧ ∀ e ∈ entries, m.Holds dir e := by
  induction levels generalizing dir with
  | zero => exact ⟨[], rfl, fun e he => absurd he List.not_mem_nil⟩
  | succ levels ih =>
    rw [Source.walkBy, list_path hproper hdir]
    refine exists_expand (fun e he => h.holds he) fun e he hkind => ?_
    exact ih (h.holds he).proper ((h.holds he).directory hkind)

theorem Named.exists_walk (h : m.Named) {dir : Location} (hproper : dir.Proper)
    (hdir : m.isDirectory dir = true) :
    ∃ entries, m.walk dir.path = .ok entries ∧ ∀ e ∈ entries, m.Holds dir e :=
  h.exists_walkBy m.levels hproper hdir

end Stencil.Memory
