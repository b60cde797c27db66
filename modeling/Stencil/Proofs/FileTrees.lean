/-
Trees of files, wherever they are kept.

A tree says which names lead to directories and which to files, and what the files say. It is neither
a tree in memory, where nothing keeps a file from being put above another, nor a disk, which has
links and may hold bytes that are no text. What a tree answers is settled here once: a listing is
determined by the names in it, because it is sorted and no name comes twice, so whoever keeps a tree
gives the listing of the tree.
-/
import Mathlib.Data.List.Perm.Basic
import Stencil.Proofs.MemoryCoherence

set_option autoImplicit false

namespace Stencil

/-- Lists in strict order that have the same elements are equal. -/
theorem SortKey.eq_of_sorted {κ α : Type} [SortKey κ] (key : α → κ) {as bs : List α}
    (has : as.Pairwise fun a b => SortKey.before (key a) (key b) = true)
    (hbs : bs.Pairwise fun a b => SortKey.before (key a) (key b) = true)
    (h : ∀ a, a ∈ as ↔ a ∈ bs) : as = bs := by
  have hne : ∀ {a b : α}, SortKey.before (key a) (key b) = true → a ≠ b := by
    intro a b hab heq
    exact SortKey.ne_of_before hab (congrArg key heq)
  have hperm : as.Perm bs := (List.perm_ext_iff_of_nodup (has.imp hne) (hbs.imp hne)).2 h
  refine hperm.eq_of_pairwise ?_ has hbs
  intro a b _ _ hab hba
  rw [SortKey.asymm hab] at hba
  exact absurd hba Bool.false_ne_true

/-! ## Trees -/

/-- What stands at a location of a tree. -/
inductive Standing where
  | file (text : String)
  | directory
  deriving DecidableEq, Repr

/-- Whether a file or a directory stands there. -/
def Standing.kind : Standing → EntryKind
  | .file _ => .file
  | .directory => .directory

/-- A tree of files and directories below a root. Whatever lies in something lies in a directory. -/
structure FileTree where
  entries : Table Location Standing
  root : entries.get? [] = none
  proper : ∀ l s, entries.get? l = some s → l.Proper
  closed : ∀ l name s, entries.get? (l ++ [name]) = some s →
    l = [] ∨ entries.get? l = some .directory

namespace FileTree

/-- Says that the entries of a table make up a tree. -/
def IsTree (entries : Table Location Standing) : Prop :=
  ∀ e ∈ entries.entries, e.1 ≠ [] ∧ e.1.Proper ∧
    (e.1.dropLast = [] ∨ entries.get? e.1.dropLast = some .directory)

instance (entries : Table Location Standing) : Decidable (IsTree entries) :=
  inferInstanceAs (Decidable (∀ e ∈ entries.entries, e.1 ≠ [] ∧ e.1.Proper ∧
    (e.1.dropLast = [] ∨ entries.get? e.1.dropLast = some .directory)))

/-- The tree with the given entries. -/
def ofTable (entries : Table Location Standing) (h : IsTree entries) : FileTree where
  entries := entries
  root := by
    rw [Option.eq_none_iff_forall_ne_some]
    intro s hget
    exact (h _ (Entries.mem_keys_of_get? hget)).1 rfl
  proper l s hget := (h _ (Entries.mem_keys_of_get? hget)).2.1
  closed l name s hget := by
    have hparent := (h _ (Entries.mem_keys_of_get? hget)).2.2
    rwa [List.dropLast_concat] at hparent

variable {t : FileTree} {l : Location} {s : Standing}

/-- What stands at a location. The root is a directory. -/
def get? (t : FileTree) (l : Location) : Option Standing :=
  if l.isEmpty then some .directory else t.entries.get? l

/-- What a directory holds, sorted by name. -/
def entriesIn (t : FileTree) (dir : Location) : List Entry :=
  (t.entries.entries.filter fun e => e.1.parent? == some dir).map fun e => ⟨e.1, e.2.kind⟩

@[simp] theorem get?_nil : t.get? [] = some .directory := rfl

theorem get?_of_ne_nil (h : l ≠ []) : t.get? l = t.entries.get? l :=
  if_neg (by simpa using h)

theorem proper_of_get? (h : t.get? l = some s) : l.Proper := by
  by_cases hl : l = []
  · rw [hl]
    exact Location.Proper.nil
  · rw [get?_of_ne_nil hl] at h
    exact t.proper l s h

/-- Whatever stands somewhere stands in directories only. The induction is on the names from the last
one, each of which stands in a directory. -/
theorem get?_of_append {names : Location} (hne : names ≠ []) (h : t.get? (l ++ names) = some s) :
    t.get? l = some .directory := by
  induction names using List.reverseRecOn generalizing s with
  | nil => exact absurd rfl hne
  | append_singleton names name ih =>
    have hparent : t.get? (l ++ names) = some .directory := by
      rw [← List.append_assoc, get?_of_ne_nil (by simp)] at h
      by_cases hroot : l ++ names = []
      · rw [hroot]
        rfl
      · rw [get?_of_ne_nil hroot]
        exact (t.closed _ name s h).resolve_left hroot
    by_cases hnames : names = []
    · rwa [hnames, List.append_nil] at hparent
    · exact ih hnames hparent

/-- The way to a directory passes directories only. -/
theorem get?_of_prefix {k : Location} (hway : l <+: k) (h : t.get? k = some .directory) :
    t.get? l = some .directory := by
  obtain ⟨names, rfl⟩ := hway
  by_cases hnames : names = []
  · rwa [hnames, List.append_nil] at h
  · exact get?_of_append hnames h

theorem mem_entriesIn {dir : Location} {e : Entry} :
    e ∈ t.entriesIn dir
      ↔ ∃ name s, t.get? (dir ++ [name]) = some s ∧ e = ⟨dir ++ [name], s.kind⟩ := by
  have hne : ∀ name, dir ++ [name] ≠ [] := by simp
  unfold entriesIn
  simp only [List.mem_map, List.mem_filter, beq_iff_eq]
  constructor
  · rintro ⟨⟨l, s⟩, ⟨hmem, hparent⟩, rfl⟩
    have hl : l = dir ++ [l.fileName] := Location.eq_of_parent? hparent
    refine ⟨l.fileName, s, ?_, by rw [← hl]⟩
    rw [get?_of_ne_nil (hne _), ← hl]
    exact Table.get?_of_mem hmem
  · rintro ⟨name, s, hget, rfl⟩
    rw [get?_of_ne_nil (hne name)] at hget
    refine ⟨(dir ++ [name], s), ⟨Entries.mem_keys_of_get? hget, ?_⟩, rfl⟩
    simp [Location.parent?]

theorem entriesIn_sorted (t : FileTree) (dir : Location) :
    (t.entriesIn dir).Pairwise fun a b => SortKey.before a.fileName b.fileName = true := by
  have hnames := fileNames_sorted dir t.entries.keys_sorted
  rw [Table.keys, List.filter_map, List.map_map] at hnames
  exact List.pairwise_map.2 (List.pairwise_map.1 hnames)

/-! ## In memory -/

/-- Says that a tree in memory is the tree `t`. -/
structure InMemory (t : FileTree) (m : Memory) : Prop where
  files : ∀ l text, m.files.get? l = some text ↔ t.get? l = some (.file text)
  directories : ∀ l, m.isDirectory l = true ↔ t.get? l = some .directory

namespace InMemory

variable {m : Memory} (h : t.InMemory m)

include h

theorem contains_files : m.files.contains l = true ↔ ∃ text, t.get? l = some (.file text) := by
  rw [Table.contains, Option.isSome_iff_exists]
  exact exists_congr fun text => h.files l text

theorem disjoint : m.Disjoint := by
  intro l hfile
  obtain ⟨text, htext⟩ := h.contains_files.1 hfile
  rw [Bool.eq_false_iff, Ne, h.directories l, htext]
  simp

theorem metadata {p : Path} (hp : p.location? = some l) :
    m.metadata p = match t.get? l with
      | some s => .ok s.kind
      | none => .error (.notFound p) := by
  rw [Memory.metadata_of_location hp]
  cases hget : t.get? l with
  | none =>
    have hfile : ¬ m.files.contains l = true := by simp [h.contains_files, hget]
    have hdir : ¬ m.isDirectory l = true := by simp [h.directories, hget]
    rw [if_neg hfile, if_neg hdir]
  | some s =>
    cases s with
    | file text =>
      rw [if_pos (h.contains_files.2 ⟨text, hget⟩)]
      rfl
    | directory =>
      have hfile : ¬ m.files.contains l = true := by simp [h.contains_files, hget]
      rw [if_neg hfile, if_pos ((h.directories l).2 hget)]
      rfl

theorem read {p : Path} (hp : p.location? = some l) :
    m.read p = match t.get? l with
      | some (.file text) => .ok text
      | _ => .error (.notFound p) := by
  rw [Memory.read_of_location hp]
  by_cases hfile : ∃ text, t.get? l = some (.file text)
  · obtain ⟨text, htext⟩ := hfile
    rw [(h.files l text).2 htext, htext]
  · have hnone : m.files.get? l = none := by
      rw [Option.eq_none_iff_forall_ne_some]
      intro text htext
      exact hfile ⟨text, (h.files l text).1 htext⟩
    rw [hnone]
    cases hget : t.get? l with
    | none => rfl
    | some s =>
      cases s with
      | file text => exact absurd ⟨text, hget⟩ hfile
      | directory => rfl

/-- No name comes twice in a listing, because files and directories never share one. -/
theorem entriesAt_sorted (dir : Location) :
    (m.entriesAt dir).Pairwise fun a b => SortKey.before a.fileName b.fileName = true := by
  have hweak : (m.entriesAt dir).Pairwise fun a b =>
      (!SortKey.before b.fileName a.fileName) = true :=
    Memory.mergeByName_sorted (Memory.names_sorted dir .file m.files.keys_sorted)
      (Memory.names_sorted dir .directory m.directories.keys_sorted)
  have hparent : ∀ e ∈ m.entriesAt dir, e.location = dir ++ [e.fileName] :=
    fun e he => Location.eq_of_parent? (Memory.mem_entriesAt he).1
  have hnames : (m.entriesAt dir).Pairwise fun a b => a.fileName ≠ b.fileName := by
    have hlocations := List.pairwise_map.1 (h.disjoint.nodup_entriesAt dir)
    refine hlocations.imp_of_mem ?_
    intro a b ha hb hne hname
    exact hne (by rw [hparent a ha, hparent b hb, hname])
  exact SortKey.forward_of_no_step_back Entry.fileName hweak hnames

/-- The listing of a directory in memory has the entries of the tree. -/
theorem entriesAt (dir : Location) : m.entriesAt dir = t.entriesIn dir := by
  refine SortKey.eq_of_sorted Entry.fileName (h.entriesAt_sorted dir) (t.entriesIn_sorted dir) ?_
  intro e
  rw [mem_entriesIn]
  constructor
  · intro he
    have hlocation : e.location = dir ++ [e.fileName] :=
      Location.eq_of_parent? (Memory.mem_entriesAt he).1
    have hentry : ∀ kind, e.kind = kind → e = ⟨dir ++ [e.fileName], kind⟩ := by
      intro kind hkind
      rw [← hlocation, ← hkind]
    obtain ⟨_, ⟨hkind, hkey⟩ | ⟨hkind, hkey⟩⟩ := Memory.mem_entriesAt he
    · obtain ⟨text, htext⟩ := h.contains_files.1 (Table.mem_keys_iff.1 hkey)
      rw [hlocation] at htext
      exact ⟨e.fileName, _, htext, hentry .file hkind⟩
    · have hcontains : m.directories.contains e.location = true := Table.mem_keys_iff.1 hkey
      have hdir := (h.directories e.location).1 (by simp [Memory.isDirectory, hcontains])
      rw [hlocation] at hdir
      exact ⟨e.fileName, _, hdir, hentry .directory hkind⟩
  · rintro ⟨name, s, hget, rfl⟩
    unfold Memory.entriesAt Memory.mergeByName Memory.children
    rw [List.mem_merge]
    cases s with
    | file text =>
      left
      have hkey : dir ++ [name] ∈ m.files.keys :=
        Table.mem_keys_iff.2 (h.contains_files.2 ⟨text, hget⟩)
      exact List.mem_map.2 ⟨_, List.mem_filter.2 ⟨hkey, by simp [Location.parent?]⟩, rfl⟩
    | directory =>
      right
      have hdir := (h.directories _).2 hget
      have hkey : dir ++ [name] ∈ m.directories.keys :=
        Table.mem_keys_iff.2 (by simpa [Memory.isDirectory, Table.contains] using hdir)
      exact List.mem_map.2 ⟨_, List.mem_filter.2 ⟨hkey, by simp [Location.parent?]⟩, rfl⟩

theorem list {p : Path} (hp : p.location? = some l) :
    m.list p = if t.get? l = some .directory then .ok (t.entriesIn l)
      else .error (.notFound p) := by
  unfold Memory.list Path.location
  rw [hp, ← h.entriesAt l]
  show (if m.isDirectory l = true then Except.ok (m.entriesAt l)
    else .error (FileError.notFound p)) = _
  by_cases hdir : t.get? l = some .directory
  · rw [if_pos hdir, if_pos ((h.directories l).2 hdir)]
  · rw [if_neg hdir, if_neg fun hm => hdir ((h.directories l).1 hm)]

end InMemory

/-! ## Every tree can be kept in memory -/

/-- The change that puts something in its place. -/
def addition (e : Location × Standing) : Memory.Change :=
  match e.2 with
  | .file text => .addFile e.1.path text
  | .directory => .addDirectory e.1.path

/-- The changes that build a tree. -/
def changes (t : FileTree) : List Memory.Change := t.entries.entries.map addition

/-- Additions at different locations leave each its file. The induction is on the additions from the
first one, and none of the later ones is at its location. -/
theorem get?_files_of_additions {es : List (Location × Standing)} (hsorted : Entries.Sorted es)
    (hproper : ∀ e ∈ es, e.1.Proper) (m : Memory) (l : Location) :
    ((es.map addition).foldl Memory.change m).files.get? l
      = match Entries.get? l es with
        | some (.file text) => some text
        | _ => m.files.get? l := by
  induction es generalizing m with
  | nil => rfl
  | cons e es ih =>
    obtain ⟨k, s⟩ := e
    obtain ⟨hk, hes⟩ := List.forall_mem_cons.1 hproper
    obtain ⟨hfirst, hrest⟩ := List.pairwise_cons.1 hsorted
    have hpath : k.path.location? = some k := Location.Proper.location?_path hk
    have hone : (m.change (addition (k, s))).files = match s with
        | .file text => m.files.insert k text
        | .directory => m.files := by
      cases s with
      | file text =>
        show (m.addFile k.path text).files = _
        rw [Memory.addFile_of_location hpath]
      | directory =>
        show (m.addDirectory k.path).files = _
        rw [Memory.addDirectory_of_location hpath]
        rfl
    rw [List.map_cons, List.foldl_cons, ih hrest hes, hone, Entries.get?]
    by_cases hl : l = k
    · rw [if_pos hl, hl, Entries.get?_eq_none_of_before hfirst]
      cases s with
      | file text => simp
      | directory => rfl
    · rw [if_neg hl]
      cases s with
      | file text => simp [hl]
      | directory => rfl

theorem makes_addition_iff {e : Location × Standing} (he : e.1.Proper) {l : Location} :
    (addition e).Makes l ↔ l <+: match e.2 with
      | .file _ => e.1.dropLast
      | .directory => e.1 := by
  obtain ⟨k, s⟩ := e
  have hpath : k.path.location? = some k := Location.Proper.location?_path he
  cases s with
  | file text => simp [addition, Memory.Change.Makes, hpath]
  | directory => simp [addition, Memory.Change.Makes, hpath]

/-- Putting something of a tree in its place makes directories only where the tree has them. -/
theorem get?_of_makes {e : Location × Standing} (he : e ∈ t.entries.entries)
    (hmakes : (addition e).Makes l) : t.get? l = some .directory := by
  have hentry : t.entries.get? e.1 = some e.2 := Table.get?_of_mem he
  have hne : e.1 ≠ [] := by
    intro hnil
    rw [hnil, t.root] at hentry
    exact absurd hentry (by simp)
  have hget : t.get? e.1 = some e.2 := (get?_of_ne_nil hne).trans hentry
  have hway := (makes_addition_iff (t.proper e.1 e.2 hentry)).1 hmakes
  cases hs : e.2 with
  | file text =>
    rw [hs] at hway
    rw [← List.dropLast_concat_getLast hne] at hget
    exact get?_of_prefix hway (get?_of_append (List.cons_ne_nil _ []) hget)
  | directory =>
    rw [hs] at hway hget
    exact get?_of_prefix hway hget

/-- Adding all that a tree holds makes the tree. -/
theorem inMemory_ofChanges (t : FileTree) : t.InMemory (Memory.ofChanges t.changes) := by
  have hproper : ∀ e ∈ t.entries.entries, e.1.Proper :=
    fun e he => t.proper e.1 e.2 (Table.get?_of_mem he)
  constructor
  · intro l text
    have hget := get?_files_of_additions t.entries.sorted hproper Memory.empty l
    have hentries : Entries.get? l t.entries.entries = t.entries.get? l := rfl
    rw [Memory.ofChanges, changes, hget, hentries]
    by_cases hl : l = []
    · rw [hl, t.root]
      simp [Memory.empty]
    · rw [get?_of_ne_nil hl]
      cases t.entries.get? l with
      | none => simp [Memory.empty]
      | some s => cases s <;> simp [Memory.empty]
  · intro l
    rw [Memory.isDirectory_ofChanges]
    constructor
    · rintro (rfl | ⟨c, hc, hmakes⟩)
      · rfl
      · obtain ⟨e, he, rfl⟩ := List.mem_map.1 hc
        exact get?_of_makes he hmakes
    · intro hget
      by_cases hl : l = []
      · exact Or.inl hl
      · rw [get?_of_ne_nil hl] at hget
        have hmem : (l, Standing.directory) ∈ t.entries.entries := Entries.mem_keys_of_get? hget
        refine Or.inr ⟨_, List.mem_map.2 ⟨_, hmem, rfl⟩, ?_⟩
        exact (makes_addition_iff (hproper _ hmem)).2 List.prefix_rfl

end FileTree

end Stencil
