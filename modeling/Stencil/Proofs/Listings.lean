/-
Listings in the order of names.

A source is asked for what a directory holds, and its answer is taken in the order in which it comes.
Sources in memory and on a disk give it by name, and two files of one directory never share a name;
so which of them comes last can be told from the names alone.
-/
import Stencil.Files.Directory
import Stencil.Files.Memory
import Stencil.Proofs.Runs

set_option autoImplicit false

namespace Stencil

open Stencil.Runs

/-- Says that a source lists the files of a directory by name, each name once. -/
def Source.ListsByName (source : Source) : Prop :=
  ∀ p entries, source.list p = .ok entries →
    (entries.filter fun e => e.kind = .file).Pairwise fun a b =>
      SortKey.before a.fileName b.fileName = true

/-! ## Lists in order -/

section

variable {κ α : Type} [SortKey κ] (key : α → κ) {front back as : List α} {a x : α}

/-- In a list in order, what comes before an element by its key comes before it in the list. -/
theorem SortKey.mem_front_of_before
    (hsorted : (front ++ a :: back).Pairwise fun x y => SortKey.before (key x) (key y) = true)
    (hx : x ∈ front ++ a :: back) (hbefore : SortKey.before (key x) (key a) = true) :
    x ∈ front := by
  rcases List.mem_append.1 hx with hx | hx
  · exact hx
  · rcases List.mem_cons.1 hx with rfl | hx
    · rw [SortKey.irrefl] at hbefore
      exact absurd hbefore Bool.false_ne_true
    · have hafter : SortKey.before (key a) (key x) = true :=
        (List.pairwise_cons.1 (List.pairwise_append.1 hsorted).2.1).1 x hx
      rw [SortKey.asymm hafter] at hbefore
      exact absurd hbefore Bool.false_ne_true

/-- In a list in order, what comes behind an element by its key comes behind it in the list. -/
theorem SortKey.mem_back_of_before
    (hsorted : (front ++ a :: back).Pairwise fun x y => SortKey.before (key x) (key y) = true)
    (hx : x ∈ front ++ a :: back) (hbefore : SortKey.before (key a) (key x) = true) :
    x ∈ back := by
  rcases List.mem_append.1 hx with hx | hx
  · have hahead : SortKey.before (key x) (key a) = true :=
      (List.pairwise_append.1 hsorted).2.2 x hx a List.mem_cons_self
    rw [SortKey.asymm hbefore] at hahead
    exact absurd hahead Bool.false_ne_true
  · rcases List.mem_cons.1 hx with rfl | hx
    · rw [SortKey.irrefl] at hbefore
      exact absurd hbefore Bool.false_ne_true
    · exact hx

/-- Not to step back is a relation that can be sorted by: two steps of which none is back make one
that is not. -/
theorem SortKey.no_step_back_trans (a b c : α)
    (hab : (!SortKey.before (key b) (key a)) = true)
    (hbc : (!SortKey.before (key c) (key b)) = true) :
    (!SortKey.before (key c) (key a)) = true := by
  rw [Bool.not_eq_true'] at hab hbc ⊢
  -- A step back from `c` to `a` would step back from `c` to `b` or from `b` to `a`.
  cases hca : SortKey.before (key c) (key a) with
  | false => rfl
  | true =>
    by_cases hsame : key a = key b
    · rw [hsame, hbc] at hca
      exact absurd hca (by decide)
    · have hlt : SortKey.before (key a) (key b) = true :=
        (SortKey.total _ _ hsame).resolve_right (by rw [hab]; decide)
      rw [SortKey.trans _ _ _ hca hlt] at hbc
      exact absurd hbc (by decide)

theorem SortKey.no_step_back_total (a b : α) :
    (!SortKey.before (key b) (key a) || !SortKey.before (key a) (key b)) = true := by
  cases hab : SortKey.before (key b) (key a) with
  | false => rfl
  | true => rw [SortKey.asymm hab]; rfl

/-- A list that never steps back goes forward where its keys differ. -/
theorem SortKey.forward_of_no_step_back
    (h : as.Pairwise fun x y => (!SortKey.before (key y) (key x)) = true)
    (hne : as.Pairwise fun x y => key x ≠ key y) :
    as.Pairwise fun x y => SortKey.before (key x) (key y) = true := by
  refine (h.and hne).imp ?_
  rintro x y ⟨hxy, hdiffer⟩
  rw [Bool.not_eq_true'] at hxy
  exact (SortKey.total _ _ hdiffer).resolve_right (by rw [hxy]; decide)

/-- Sorting elements with different keys brings them in order. -/
theorem SortKey.sorted_mergeSort (h : (as.map key).Nodup) :
    (as.mergeSort fun x y => !SortKey.before (key y) (key x)).Pairwise fun x y =>
      SortKey.before (key x) (key y) = true := by
  have hweak := List.pairwise_mergeSort (SortKey.no_step_back_trans key)
    (SortKey.no_step_back_total key) as
  have hdiffer : (as.mergeSort fun x y => !SortKey.before (key y) (key x)).Pairwise fun x y =>
      key x ≠ key y :=
    ((List.mergeSort_perm as _).pairwise_iff fun h => Ne.symm h).2 (List.pairwise_map.1 h)
  exact SortKey.forward_of_no_step_back key hweak hdiffer

end

/-! ## Locations in one directory -/

theorem Location.fileName_append (dir : Location) (name : String) :
    Location.fileName (dir ++ [name]) = name := by
  unfold Location.fileName
  rw [List.getLast?_concat]
  rfl

/-- A location is the one that it lies in and its last name. -/
theorem Location.eq_of_parent? {l dir : Location} (h : l.parent? = some dir) :
    l = dir ++ [l.fileName] := by
  have hne : l ≠ [] := by
    intro hnil
    rw [hnil] at h
    exact absurd h (by simp [Location.parent?])
  have hdir : l.dropLast = dir := by
    rw [Location.parent?, if_neg (by simpa using hne)] at h
    exact Option.some.inj h
  have hlast : l.fileName = l.getLast hne := by
    rw [Location.fileName, List.getLast?_eq_some_getLast hne, Option.getD_some]
  rw [← hdir, hlast, List.dropLast_concat_getLast hne]

/-- What two locations begin with has no part in their order. -/
theorem SortKey.listBefore_append (dir as bs : Location) :
    SortKey.listBefore (dir ++ as) (dir ++ bs) = SortKey.listBefore as bs := by
  induction dir with
  | nil => rfl
  | cons name rest ih =>
    show (_ || (!SortKey.before name name && SortKey.listBefore (rest ++ as) (rest ++ bs))) = _
    rw [SortKey.irrefl, ih]
    rfl

/-- Locations in one directory are ordered by their last names. -/
theorem SortKey.listBefore_concat (dir : Location) (a b : String) :
    SortKey.listBefore (dir ++ [a]) (dir ++ [b]) = SortKey.before a b := by
  rw [SortKey.listBefore_append]
  simp [SortKey.listBefore]

/-- Of some locations in order, those in one directory come by name. -/
theorem fileNames_sorted {ls : List Location} (dir : Location)
    (h : ls.Pairwise fun a b => SortKey.before a b = true) :
    ((ls.filter fun l => l.parent? == some dir).map Location.fileName).Pairwise fun a b =>
      SortKey.before a b = true := by
  have hinside : (ls.filter fun l => l.parent? == some dir).Pairwise fun a b =>
      SortKey.before a b = true := h.sublist List.filter_sublist
  refine List.pairwise_map.2 (hinside.imp_of_mem ?_)
  intro a b ha hb hab
  have hpa : a = dir ++ [a.fileName] :=
    Location.eq_of_parent? (by simpa using (List.mem_filter.1 ha).2)
  have hpb : b = dir ++ [b.fileName] :=
    Location.eq_of_parent? (by simpa using (List.mem_filter.1 hb).2)
  rw [hpa, hpb] at hab
  have hnames : SortKey.listBefore (dir ++ [a.fileName]) (dir ++ [b.fileName]) = true := hab
  rwa [SortKey.listBefore_concat] at hnames

/-! ## In memory -/

namespace Memory

theorem names_sorted (dir : Location) (kind : EntryKind) {ls : List Location}
    (h : ls.Pairwise fun a b => SortKey.before a b = true) :
    ((children dir ls).map fun l => (⟨l, kind⟩ : Entry)).Pairwise fun a b =>
      SortKey.before a.fileName b.fileName = true :=
  List.pairwise_map.2 (List.pairwise_map.1 (fileNames_sorted dir h))

/-- A merged listing never steps back. -/
theorem mergeByName_sorted {as bs : List Entry}
    (ha : as.Pairwise fun a b => SortKey.before a.fileName b.fileName = true)
    (hb : bs.Pairwise fun a b => SortKey.before a.fileName b.fileName = true) :
    (mergeByName as bs).Pairwise fun a b => (!SortKey.before b.fileName a.fileName) = true := by
  have hweak : ∀ {es : List Entry},
      (es.Pairwise fun a b => SortKey.before a.fileName b.fileName = true) →
      es.Pairwise fun a b => (!SortKey.before b.fileName a.fileName) = true :=
    fun h => h.imp fun hab => by rw [SortKey.asymm hab]; rfl
  exact List.pairwise_merge (SortKey.no_step_back_trans Entry.fileName)
    (SortKey.no_step_back_total Entry.fileName) as bs (hweak ha) (hweak hb)

theorem filter_file_of_kind {ls : List Location} {kind : EntryKind} :
    ((ls.map fun l => (⟨l, kind⟩ : Entry)).filter fun e => e.kind = .file)
      = if kind = .file then ls.map fun l => ⟨l, kind⟩ else [] := by
  induction ls with
  | nil => cases kind <;> rfl
  | cons l rest ih => cases kind <;> simp_all

/-- The files of a listing are merged with directories, and stay as they are. -/
theorem files_entriesAt_sorted (m : Memory) (dir : Location) :
    ((m.entriesAt dir).filter fun e => e.kind = .file).Pairwise fun a b =>
      SortKey.before a.fileName b.fileName = true := by
  have hfiles := names_sorted dir .file m.files.keys_sorted
  have hdirs := names_sorted dir .directory m.directories.keys_sorted
  have hsorted := (mergeByName_sorted hfiles hdirs).sublist
    (List.filter_sublist (p := fun e => decide (e.kind = .file)))
  have hperm : ((m.entriesAt dir).filter fun e => e.kind = .file).Perm
      ((children dir m.files.keys).map fun l => ⟨l, .file⟩) := by
    have hmerge : (m.entriesAt dir).Perm (((children dir m.files.keys).map fun l => ⟨l, .file⟩)
        ++ (children dir m.directories.keys).map fun l => ⟨l, .directory⟩) :=
      List.merge_perm_append fun a b : Entry => !SortKey.before b.fileName a.fileName
    have h := hmerge.filter fun e => decide (e.kind = .file)
    rw [List.filter_append, filter_file_of_kind, filter_file_of_kind, if_pos rfl,
      if_neg (by decide), List.append_nil] at h
    exact h
  have hdistinct : ((m.entriesAt dir).filter fun e => e.kind = .file).Pairwise fun a b =>
      a.fileName ≠ b.fileName :=
    (hperm.pairwise_iff fun h => Ne.symm h).2 (hfiles.imp SortKey.ne_of_before)
  exact SortKey.forward_of_no_step_back Entry.fileName hsorted hdistinct

/-- A tree in memory lists files by name. -/
theorem listsByName (m : Memory) : m.source.ListsByName := by
  intro p entries h
  obtain ⟨l, _, hlist⟩ := monad_bind_eq_ok.1 h
  split at hlist
  · rw [← Except.ok.inj hlist]
    exact m.files_entriesAt_sorted l
  · exact absurd hlist (by simp)

end Memory

/-! ## On a disk -/

/-- The names at a location have an order, in which the disk need not list them. -/
theorem Disk.namesAt_sorted (d : Disk) (l : Location) :
    (d.namesAt l).Pairwise fun a b => SortKey.before a b = true :=
  fileNames_sorted l d.nodes.keys_sorted

/-- A disk lists the names that are at the location of a directory. -/
theorem Disk.names_eq_ok {d : Disk} {p : Path} {names : List String} (h : d.names p = .ok names) :
    ∃ l, names.Perm (d.namesAt l) := by
  obtain ⟨⟨l, node⟩, _, hnames⟩ := monad_bind_eq_ok.1 h
  cases node with
  | directory =>
    refine ⟨l, ?_⟩
    rw [← Except.ok.inj hnames]
    exact d.arrange_perm l _
  | file _ => exact absurd hnames (by simp)
  | link _ => exact absurd hnames (by simp)

theorem Disk.nodup_of_names {d : Disk} {p : Path} {names : List String}
    (h : d.names p = .ok names) : names.Nodup := by
  obtain ⟨l, hperm⟩ := Disk.names_eq_ok h
  exact hperm.nodup_iff.2 ((d.namesAt_sorted l).imp SortKey.ne_of_before)

namespace Directory

theorem fileName_of_entryFor {dir : Directory} {d : Disk} {l : Location} {name : String} {e : Entry}
    (h : dir.entryFor d l name = .ok e) : e.fileName = name := by
  obtain ⟨_, _, he⟩ := monad_bind_eq_ok.1 h
  rw [← Except.ok.inj he]
  exact Location.fileName_append l name

/-- The entries of a listing have the names that were listed. -/
theorem fileNames_of_entries {dir : Directory} {d : Disk} {l : Location} (names : List String)
    {entries : List Entry} (h : names.mapM (dir.entryFor d l) = .ok entries) :
    entries.map Entry.fileName = names := by
  induction names generalizing entries with
  | nil =>
    rw [List.mapM_nil] at h
    rw [← Except.ok.inj h]
    rfl
  | cons name rest ih =>
    rw [List.mapM_cons] at h
    obtain ⟨e, he, hrest⟩ := monad_bind_eq_ok.1 h
    obtain ⟨others, hothers, hentries⟩ := monad_bind_eq_ok.1 hrest
    rw [← Except.ok.inj hentries, List.map_cons, fileName_of_entryFor he, ih hothers]

theorem sorted_sortByName {entries : List Entry} (h : (entries.map Entry.fileName).Nodup) :
    (sortByName entries).Pairwise fun a b => SortKey.before a.fileName b.fileName = true :=
  SortKey.sorted_mergeSort Entry.fileName h

/-- A listing has an entry for each name that the disk lists. -/
theorem list_eq_ok {dir : Directory} {d : Disk} {p : Path} {entries : List Entry}
    (h : dir.list d p = .ok entries) :
    ∃ l names found, p.location = .ok l ∧ d.names (dir.fullPath l) = .ok names ∧
      names.mapM (dir.entryFor d l) = .ok found ∧ entries = sortByName found := by
  obtain ⟨l, hl, hrest⟩ := monad_bind_eq_ok.1 h
  obtain ⟨names, hnames, hrest⟩ := monad_bind_eq_ok.1 hrest
  obtain ⟨found, hfound, hsorted⟩ := monad_bind_eq_ok.1 hrest
  exact ⟨l, names, found, hl, mapError_eq_ok.1 hnames, hfound, (Except.ok.inj hsorted).symm⟩

/-- A directory of a disk lists files by name, in whichever order the disk does. -/
theorem listsByName (dir : Directory) (d : Disk) (walker : Walker) :
    (dir.source d walker).ListsByName := by
  intro p entries h
  obtain ⟨l, names, found, _, hnames, hfound, rfl⟩ := list_eq_ok h
  have hdistinct : (found.map Entry.fileName).Nodup := by
    rw [fileNames_of_entries names hfound]
    exact Disk.nodup_of_names hnames
  exact (sorted_sortByName hdistinct).sublist List.filter_sublist

end Directory

end Stencil
