/-
Trees on a disk.

A tree is on a disk below a root if the root leads to a directory, through whatever links, and what
the disk has at the names below that directory is what the tree has there. The tree itself has no
links, and its names are ones that the system takes. Then every look-up below the root arrives where
the names say, or fails because the tree has nothing there, and so every question about a path has the
tree's answer.
-/
import Mathlib.Data.List.Nodup
import Stencil.Proofs.DiskPaths
import Stencil.Proofs.FileTrees

set_option autoImplicit false

namespace Stencil

open Stencil.Runs

/-- What a disk has for something in a tree. -/
def Standing.node : Standing → DiskNode
  | .file text => .file text.toUTF8
  | .directory => .directory

theorem Standing.kindOf_node (s : Standing) : Directory.kindOf s.node.fileType = s.kind := by
  cases s with
  | file _ => rfl
  | directory => rfl

/-- A list of images comes from a list. -/
theorem exists_map_eq {α β : Type} {f : α → β} {P : α → Prop} {bs : List β}
    (h : ∀ b ∈ bs, ∃ a, P a ∧ f a = b) : ∃ as : List α, (∀ a ∈ as, P a) ∧ as.map f = bs := by
  induction bs with
  | nil => exact ⟨[], fun _ ha => absurd ha List.not_mem_nil, rfl⟩
  | cons b bs ih =>
    obtain ⟨hfirst, hrest⟩ := List.forall_mem_cons.1 h
    obtain ⟨a, ha, rfl⟩ := hfirst
    obtain ⟨as, has, rfl⟩ := ih hrest
    exact ⟨a :: as, List.forall_mem_cons.2 ⟨ha, has⟩, rfl⟩

/-- A failure of the system is not a refusal of the path. -/
theorem FileError.ofCause_ne_pathOutsideRoot (p q : Path) (cause : IoCause) :
    FileError.ofCause p cause ≠ .pathOutsideRoot q := by
  unfold ofCause
  split
  · simp
  · simp

/-- Text is read back from its bytes. -/
theorem fromUTF8?_toUTF8 (text : String) : String.fromUTF8? text.toUTF8 = some text := by
  have hvalid : text.toUTF8.IsValidUTF8 := text.isValidUTF8
  unfold String.fromUTF8?
  rw [dif_pos (by simpa using hvalid)]
  rfl

namespace Location

/-- The characters of a location's path are slashes and those of its names. -/
theorem mem_toList_path {l : Location} {c : Char} (h : c ∈ l.path.text.toList) :
    c = '/' ∨ ∃ name ∈ l, c ∈ name.toList := by
  cases l using List.reverseRecOn with
  | nil => exact absurd h (by simp [path])
  | append_singleton front name =>
    rw [path, toList_intercalate_concat, List.mem_append, List.mem_flatMap] at h
    rcases h with ⟨n, hn, hc⟩ | hc
    · rcases List.mem_append.1 hc with hc | hc
      · exact Or.inr ⟨n, List.mem_append_left _ hn, hc⟩
      · exact Or.inl (List.mem_singleton.1 hc)
    · exact Or.inr ⟨name, by simp, hc⟩

end Location

/-! ## Questions about a location

A path that stays below the root is asked about at the full path of its location. -/

namespace Directory

variable {dir : Directory} {d : Disk} {p : Path} {l : Location} (hp : p.location? = some l)

include hp

theorem metadata_of_location : dir.metadata d p = (do
    let found ← answer p (d.lookUp (dir.fullPath l) true)
    .ok (kindOf found.2.fileType)) := by
  unfold metadata
  rw [Path.location_of_some hp]
  rfl

theorem read_of_location : dir.read d p = (do
    let content ← answer p (d.bytes (dir.fullPath l))
    match String.fromUTF8? content with
    | some text => .ok text
    | none => .error (.invalidUtf8 p)) := by
  unfold read
  rw [Path.location_of_some hp]
  rfl

theorem list_of_location : dir.list d p = (do
    let names ← answer p (d.names (dir.fullPath l))
    let entries ← names.mapM (dir.entryFor d l)
    .ok (sortByName entries)) := by
  unfold list
  rw [Path.location_of_some hp]
  rfl

theorem walk_of_location (walker : Walker) : dir.walk walker d p =
    (walker walkOptions d (dir.fullPath l)).mapM (dir.entryOf (dir.fullPath l)) := by
  unfold walk
  rw [Path.location_of_some hp]
  rfl

/-- A file that holds text is read as that text. -/
theorem read_of_lookUp {place : Location} {text : String}
    (h : d.lookUp (dir.fullPath l) true = .ok (place, .file text.toUTF8)) :
    dir.read d p = .ok text := by
  have hbytes : d.bytes (dir.fullPath l) = .ok text.toUTF8 := by
    unfold Disk.bytes
    rw [h]
    rfl
  rw [read_of_location hp, hbytes]
  show (match String.fromUTF8? text.toUTF8 with
    | some text => Except.ok text
    | none => .error (FileError.invalidUtf8 p)) = _
  rw [fromUTF8?_toUTF8]

end Directory

/-- A look-up succeeds where the path leads to a location that holds something. -/
theorem Disk.lookUp_eq_ok_iff {d : Disk} {p : Path} {followLast : Bool} {l : Location}
    {node : DiskNode} :
    d.lookUp p followLast = .ok (l, node) ↔ d.locate p followLast = .ok l ∧ d.node? l = some node := by
  unfold lookUp
  rw [monad_bind_eq_ok]
  constructor
  · rintro ⟨l', hlocate, hnode⟩
    cases hat : d.node? l' with
    | none =>
      rw [hat] at hnode
      cases hnode
    | some node' =>
      rw [hat] at hnode
      cases hnode
      exact ⟨hlocate, hat⟩
  · rintro ⟨hlocate, hnode⟩
    refine ⟨l, hlocate, ?_⟩
    rw [hnode]

/-- A name is in a directory if something stands there. -/
theorem Disk.mem_namesAt_iff {d : Disk} {l : Location} {name : String} :
    name ∈ d.namesAt l ↔ (d.node? (l ++ [name])).isSome = true := by
  unfold namesAt
  have hnode : d.node? (l ++ [name]) = d.nodes.get? (l ++ [name]) := if_neg (by simp)
  rw [hnode, ← Table.mem_keys_iff, List.mem_map]
  constructor
  · rintro ⟨k, hk, rfl⟩
    obtain ⟨hkey, hparent⟩ := List.mem_filter.1 hk
    rwa [← Location.eq_of_parent? (beq_iff_eq.1 hparent)]
  · intro hkey
    refine ⟨l ++ [name], List.mem_filter.2 ⟨hkey, ?_⟩, Location.fileName_append l name⟩
    simp [Location.parent?]

/-- The path of a location below a root leads to the root first, and from there by the names. -/
theorem Directory.follow_fullPath {dir : Directory} {d : Disk} {place l : Location}
    (hroot : d.lookUp dir.root true = .ok (place, .directory)) (hl : l.Proper) (followLast : Bool) :
    ∃ left, d.follow followLast Disk.linkLimit [] (Disk.steps (dir.fullPath l))
      = d.follow followLast left place (l.map .name) := by
  obtain ⟨hlocate, hplace⟩ := Disk.lookUp_eq_ok_iff.1 hroot
  rw [steps_fullPath (Disk.locate_eq_ok hlocate).1 hl]
  by_cases hnil : l = []
  · -- The path of the root itself ends in a step that stays where it is.
    obtain ⟨left, hgo⟩ := Disk.follow_behind followLast hlocate (List.cons_ne_nil .current [])
    refine ⟨left, ?_⟩
    rw [if_pos hnil, hgo, hnil, Disk.follow_eq, Disk.advance_cons, hplace]
    exact (Disk.follow_eq left place []).symm
  · have hmore : l.map PathPart.name ≠ [] := by simpa using hnil
    obtain ⟨left, hgo⟩ := Disk.follow_behind followLast hlocate hmore
    rw [if_neg hnil]
    exact ⟨left, hgo⟩

/-! ## Trees below a root -/

namespace FileTree

/-- Says that the tree `t` is on a disk, with its root at the location `place` to which the root of a
source leads. -/
structure OnDisk (t : FileTree) (d : Disk) (dir : Directory) (place : Location) : Prop where
  root : d.lookUp dir.root true = .ok (place, .directory)
  nodes : ∀ l, d.node? (place ++ l) = (t.get? l).map Standing.node
  names : ∀ l s, t.get? l = some s →
    ∀ name ∈ l, name.utf8ByteSize ≤ Disk.nameLimit ∧ '\x00' ∉ name.toList

namespace OnDisk

variable {t : FileTree} {d : Disk} {dir : Directory} {place l : Location} {s : Standing}
  (h : t.OnDisk d dir place)

include h

/-! ## Look-ups -/

theorem locate_root : dir.root.text ≠ "" ∧ '\x00' ∉ dir.root.text.toList ∧
    d.follow true Disk.linkLimit [] (Disk.steps dir.root) = .ok place :=
  Disk.locate_eq_ok (Disk.lookUp_eq_ok_iff.1 h.root).1

/-- Names that lead to something in the tree lead there on the disk. The induction is on the names,
and `k` is where they are followed from. -/
theorem advance_of_get? (followLast : Bool) {k : Location} (hget : t.get? (k ++ l) = some s) :
    d.advance followLast (place ++ k) (l.map .name) = .ok (.location (place ++ (k ++ l))) := by
  induction l generalizing k with
  | nil =>
    rw [List.append_nil]
    rfl
  | cons name rest ih =>
    have hhere : d.node? (place ++ k) = some .directory := by
      rw [h.nodes, get?_of_append (List.cons_ne_nil name rest) hget]
      rfl
    have hshort : ¬ Disk.nameLimit < name.utf8ByteSize := by
      have hlimit := (h.names _ s hget name (by simp)).1
      omega
    have hsplit : k ++ name :: rest = k ++ [name] ++ rest := by simp
    rw [hsplit] at hget ⊢
    obtain ⟨s', hnext⟩ : ∃ s', t.get? (k ++ [name]) = some s' := by
      by_cases hrest : rest = []
      · rw [hrest, List.append_nil] at hget
        exact ⟨s, hget⟩
      · exact ⟨.directory, get?_of_append hrest hget⟩
    have hnode : d.node? (place ++ k ++ [name]) = some s'.node := by
      rw [List.append_assoc, h.nodes, hnext]
      rfl
    rw [List.map_cons, Disk.advance_cons, hhere]
    dsimp only
    rw [if_neg hshort, hnode, List.append_assoc place k]
    cases s' with
    | file _ => exact ih hget
    | directory => exact ih hget

/-- Names that lead to nothing in the tree lead nowhere on the disk. -/
theorem advance_of_none (followLast : Bool) {k : Location} (hk : t.get? k = some s)
    (hget : t.get? (k ++ l) = none) :
    ∃ cause, d.advance followLast (place ++ k) (l.map .name) = .error cause := by
  induction l generalizing k s with
  | nil =>
    rw [List.append_nil, hk] at hget
    exact absurd hget (by simp)
  | cons name rest ih =>
    have hhere : d.node? (place ++ k) = some s.node := by
      rw [h.nodes, hk]
      rfl
    rw [List.map_cons, Disk.advance_cons, hhere]
    cases s with
    | file _ => exact ⟨_, rfl⟩
    | directory =>
      dsimp only [Standing.node]
      by_cases hlong : Disk.nameLimit < name.utf8ByteSize
      · rw [if_pos hlong]
        exact ⟨_, rfl⟩
      · rw [if_neg hlong, List.append_assoc, h.nodes]
        cases hnext : t.get? (k ++ [name]) with
        | none => exact ⟨_, rfl⟩
        | some s' =>
          have hmissing : t.get? (k ++ [name] ++ rest) = none := by
            rw [← hget, List.append_assoc]
            rfl
          cases s' with
          | file _ => exact ih hnext hmissing
          | directory => exact ih hnext hmissing

/-- A look-up below the root arrives at what the tree has there. -/
theorem lookUp_of_get? (followLast : Bool) (hget : t.get? l = some s) :
    d.lookUp (dir.fullPath l) followLast = .ok (place ++ l, s.node) := by
  obtain ⟨hne, hnul, _⟩ := h.locate_root
  have hl : l.Proper := proper_of_get? hget
  have htext : ¬ (dir.fullPath l).text.toList.contains '\x00' = true := by
    intro hmem
    rw [List.contains_iff_mem, Directory.toList_fullPath hne hl, List.mem_append] at hmem
    rcases hmem with hbase | hpath
    · unfold Directory.base Path.slash at hbase
      rcases List.mem_append.1 hbase with hroot | hslash
      · exact hnul hroot
      · split at hslash
        · exact absurd hslash List.not_mem_nil
        · exact absurd (List.mem_singleton.1 hslash) (by decide)
    · rcases Location.mem_toList_path hpath with hslash | ⟨name, hname, hchar⟩
      · exact absurd hslash (by decide)
      · exact (h.names l s hget name hname).2 hchar
  have hempty : ¬ (dir.fullPath l).text.isEmpty = true := by
    simpa using Directory.fullPath_ne_empty hne hl
  have hlocate : d.locate (dir.fullPath l) followLast = .ok (place ++ l) := by
    unfold Disk.locate
    obtain ⟨left, hgo⟩ := Directory.follow_fullPath h.root hl followLast
    have hnames := h.advance_of_get? followLast (k := []) hget
    rw [List.append_nil, List.nil_append] at hnames
    rw [if_neg hempty, if_neg htext, hgo, Disk.follow_eq, hnames]
  refine Disk.lookUp_eq_ok_iff.2 ⟨hlocate, ?_⟩
  rw [h.nodes, hget]
  rfl

/-- A look-up below the root fails where the tree has nothing. -/
theorem lookUp_of_none (followLast : Bool) (hl : l.Proper) (hget : t.get? l = none) :
    ∃ cause, d.lookUp (dir.fullPath l) followLast = .error cause := by
  have hlocate : ∃ cause, d.locate (dir.fullPath l) followLast = .error cause := by
    unfold Disk.locate
    split
    · exact ⟨_, rfl⟩
    · split
      · exact ⟨_, rfl⟩
      · obtain ⟨left, hgo⟩ := Directory.follow_fullPath h.root hl followLast
        obtain ⟨cause, hnames⟩ := h.advance_of_none followLast (k := []) get?_nil hget
        rw [List.append_nil] at hnames
        rw [hgo, Disk.follow_eq, hnames]
        exact ⟨cause, rfl⟩
  obtain ⟨cause, hcause⟩ := hlocate
  refine ⟨cause, ?_⟩
  unfold Disk.lookUp
  rw [hcause]
  rfl

/-! ## Questions -/

theorem metadata_of_get? {p : Path} (hp : p.location? = some l) (hget : t.get? l = some s) :
    dir.metadata d p = .ok s.kind := by
  rw [Directory.metadata_of_location hp, h.lookUp_of_get? true hget, ← s.kindOf_node]
  rfl

theorem metadata_of_none {p : Path} (hp : p.location? = some l) (hget : t.get? l = none) :
    ∃ cause, dir.metadata d p = .error (FileError.ofCause p cause) := by
  obtain ⟨cause, hcause⟩ := h.lookUp_of_none true (Path.proper_of_location? hp) hget
  rw [Directory.metadata_of_location hp, hcause]
  exact ⟨cause, rfl⟩

theorem read_of_file {p : Path} {text : String} (hp : p.location? = some l)
    (hget : t.get? l = some (.file text)) : dir.read d p = .ok text :=
  Directory.read_of_lookUp hp (h.lookUp_of_get? true hget)

theorem read_of_not_file {p : Path} (hp : p.location? = some l)
    (hget : ∀ text, t.get? l ≠ some (.file text)) :
    ∃ cause, dir.read d p = .error (FileError.ofCause p cause) := by
  have hbytes : ∃ cause, d.bytes (dir.fullPath l) = .error cause := by
    unfold Disk.bytes
    cases hl : t.get? l with
    | none =>
      obtain ⟨cause, hcause⟩ := h.lookUp_of_none true (Path.proper_of_location? hp) hl
      rw [hcause]
      exact ⟨cause, rfl⟩
    | some s =>
      cases s with
      | file text => exact absurd hl (hget text)
      | directory =>
        rw [h.lookUp_of_get? true hl]
        exact ⟨.isADirectory, rfl⟩
  obtain ⟨cause, hcause⟩ := hbytes
  rw [Directory.read_of_location hp, hcause]
  exact ⟨cause, rfl⟩

/-! ## Listings -/

/-- The names in a directory on the disk are those in the tree. -/
theorem namesAt_eq (l : Location) :
    d.namesAt (place ++ l) = (t.entriesIn l).map Entry.fileName := by
  apply SortKey.eq_of_sorted id
  · exact d.namesAt_sorted (place ++ l)
  · exact List.pairwise_map.2 (t.entriesIn_sorted l)
  · intro name
    rw [Disk.mem_namesAt_iff, List.append_assoc, h.nodes, Option.isSome_map,
      Option.isSome_iff_exists, List.mem_map]
    constructor
    · rintro ⟨s, hs⟩
      exact ⟨_, mem_entriesIn.2 ⟨name, s, hs, rfl⟩, Location.fileName_append l name⟩
    · rintro ⟨e, he, rfl⟩
      obtain ⟨name, s, hs, rfl⟩ := mem_entriesIn.1 he
      refine ⟨s, ?_⟩
      show t.get? (l ++ [Location.fileName (l ++ [name])]) = some s
      rw [Location.fileName_append]
      exact hs

/-- Where the tree has a directory, the disk lists the names in it, in an order of its own. -/
theorem names_of_directory (hget : t.get? l = some .directory) :
    ∃ names, d.names (dir.fullPath l) = .ok names ∧
      names.Perm ((t.entriesIn l).map Entry.fileName) := by
  refine ⟨d.arrange (place ++ l) (d.namesAt (place ++ l)), ?_, ?_⟩
  · unfold Disk.names
    rw [h.lookUp_of_get? true hget]
    rfl
  · rw [← h.namesAt_eq]
    exact d.arrange_perm _ _

/-- Going on by a name in a directory of the tree leads to what stands there. -/
theorem lookUp_join (followLast : Bool) {name : String} (hget : t.get? (l ++ [name]) = some s) :
    d.lookUp ((dir.fullPath l).join ⟨name⟩) followLast = .ok (place ++ (l ++ [name]), s.node) := by
  obtain ⟨hne, _, _⟩ := h.locate_root
  have hproper := proper_of_get? hget
  have hl : l.Proper := hproper.of_sublist (List.sublist_append_left l [name])
  rw [Directory.join_fullPath hne hl (hproper name (by simp))]
  exact h.lookUp_of_get? followLast hget

theorem mapM_entryFor {es : List Entry} (hes : ∀ e ∈ es, e ∈ t.entriesIn l) :
    (es.map Entry.fileName).mapM (dir.entryFor d l) = .ok es := by
  induction es with
  | nil => rfl
  | cons e es ih =>
    obtain ⟨hfirst, hrest⟩ := List.forall_mem_cons.1 hes
    obtain ⟨name, s, hs, rfl⟩ := mem_entriesIn.1 hfirst
    have hone : dir.entryFor d l name = .ok ⟨l ++ [name], s.kind⟩ := by
      unfold Directory.entryFor
      show (Directory.answer _ (d.lookUp ((dir.fullPath l).join ⟨name⟩) true) >>= fun x =>
        Except.ok (⟨l ++ [name], Directory.kindOf x.2.fileType⟩ : Entry)) = _
      rw [h.lookUp_join true hs, ← s.kindOf_node]
      rfl
    have hname : Entry.fileName ⟨l ++ [name], s.kind⟩ = name := Location.fileName_append l name
    rw [List.map_cons, List.mapM_cons, hname, hone, ih hrest]
    rfl

/-- In whichever order the disk lists the names, the entries are sorted in the end. -/
theorem list_of_directory {p : Path} (hp : p.location? = some l)
    (hget : t.get? l = some .directory) : dir.list d p = .ok (t.entriesIn l) := by
  obtain ⟨names, hnames, hperm⟩ := h.names_of_directory hget
  obtain ⟨es, hes, rfl⟩ := exists_map_eq fun name hname => List.mem_map.1 (hperm.mem_iff.1 hname)
  have hdistinct : ((t.entriesIn l).map Entry.fileName).Nodup :=
    List.pairwise_map.2 ((t.entriesIn_sorted l).imp SortKey.ne_of_before)
  have hsorted : Directory.sortByName es = t.entriesIn l := by
    refine SortKey.eq_of_sorted Entry.fileName
      (Directory.sorted_sortByName (hperm.nodup_iff.2 hdistinct)) (t.entriesIn_sorted l) fun e => ?_
    rw [Directory.sortByName, List.mem_mergeSort]
    refine ⟨hes e, fun he => ?_⟩
    -- Two entries of the same name in one directory are the same.
    obtain ⟨e', he', hname⟩ := List.mem_map.1 (hperm.mem_iff.2 (List.mem_map_of_mem he))
    rwa [← List.inj_on_of_nodup_map hdistinct (hes e' he') he hname]
  rw [Directory.list_of_location hp, hnames]
  show ((es.map Entry.fileName).mapM (dir.entryFor d l) >>= _) = _
  rw [h.mapM_entryFor hes]
  exact congrArg Except.ok hsorted

theorem list_of_not_directory {p : Path} (hp : p.location? = some l)
    (hget : t.get? l ≠ some .directory) :
    ∃ cause, dir.list d p = .error (FileError.ofCause p cause) := by
  have hnames : ∃ cause, d.names (dir.fullPath l) = .error cause := by
    unfold Disk.names
    cases hl : t.get? l with
    | none =>
      obtain ⟨cause, hcause⟩ := h.lookUp_of_none true (Path.proper_of_location? hp) hl
      rw [hcause]
      exact ⟨cause, rfl⟩
    | some s =>
      cases s with
      | directory => exact absurd hl hget
      | file text =>
        rw [h.lookUp_of_get? true hl]
        exact ⟨.notADirectory, rfl⟩
  obtain ⟨cause, hcause⟩ := hnames
  rw [Directory.list_of_location hp, hcause]
  exact ⟨cause, rfl⟩

end OnDisk

/-! ## Every tree with names that the system takes can be on a disk -/

theorem get?_map_node (es : List (Location × Standing)) (l : Location) :
    Entries.get? l (es.map fun e => (e.1, e.2.node)) = (Entries.get? l es).map Standing.node := by
  induction es with
  | nil => rfl
  | cons e es ih =>
    rw [List.map_cons, Entries.get?, Entries.get?]
    by_cases hl : l = e.1
    · rw [if_pos hl, if_pos hl]
      rfl
    · rw [if_neg hl, if_neg hl]
      exact ih

theorem sorted_map_node {es : List (Location × Standing)} (h : Entries.Sorted es) :
    Entries.Sorted (es.map fun e => (e.1, e.2.node)) := by
  unfold Entries.Sorted
  rw [List.pairwise_map]
  exact h

/-- A disk with the tree at its top and nothing else, which lists names as `d` does. -/
def disk (t : FileTree) (d : Disk) : Disk :=
  { d with
    nodes := ⟨t.entries.entries.map fun e => (e.1, e.2.node), sorted_map_node t.entries.sorted⟩ }

theorem onDisk_disk {t : FileTree} (d : Disk)
    (hnames : ∀ e ∈ t.entries.entries, ∀ name ∈ e.1,
      name.utf8ByteSize ≤ Disk.nameLimit ∧ '\x00' ∉ name.toList) :
    t.OnDisk (t.disk d) ⟨⟨"/"⟩⟩ [] := by
  have hnodes : ∀ l, (t.disk d).node? l = (t.get? l).map Standing.node := by
    intro l
    by_cases hl : l = []
    · rw [hl]
      rfl
    · have hnode : (t.disk d).node? l = (t.disk d).nodes.get? l := if_neg (by simpa using hl)
      rw [hnode, get?_of_ne_nil hl]
      exact get?_map_node t.entries.entries l
  have hsteps : Disk.steps ⟨"/"⟩ = [.root, .current] := by decide +kernel
  have hlocate : (t.disk d).locate ⟨"/"⟩ true = .ok [] := by
    unfold Disk.locate
    rw [if_neg (by decide), if_neg (by decide), hsteps]
    rfl
  refine ⟨?_, fun l => hnodes l, ?_⟩
  · unfold Disk.lookUp
    rw [hlocate]
    rfl
  · intro l s hget name hname
    by_cases hl : l = []
    · rw [hl] at hname
      exact absurd hname List.not_mem_nil
    · rw [get?_of_ne_nil hl] at hget
      exact hnames (l, s) (Entries.mem_keys_of_get? hget) name hname

end FileTree

end Stencil
