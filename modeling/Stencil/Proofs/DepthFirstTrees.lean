/-
Depth first over a tree.

The walker that goes down before it goes on keeps what walkers promise. In a tree there are no links,
so it finds what stands there. It sorts the names, in whichever order the disk lists them, and they are
those of the tree. And a tree on a disk is never deeper than there are things on the disk, so the
levels are enough. It goes over the tree, then, as a walk in memory does.
-/
import Stencil.Proofs.WalkerPromises

set_option autoImplicit false

namespace Stencil

/-- The type of what stands on a disk for something of a kind. -/
def EntryKind.fileType : EntryKind → FileType
  | .file => .file
  | .directory => .directory

theorem Standing.fileType_node (s : Standing) : s.node.fileType = s.kind.fileType := by
  cases s with
  | file _ => rfl
  | directory => rfl

namespace FileTree.OnDisk

variable {t : FileTree} {d : Disk} {dir : Directory} {place l : Location} {s : Standing}
  (h : t.OnDisk d dir place)

include h

/-! ## Levels -/

/-- On a disk there is something at each step of the way to a directory, so no way is longer than
there are things on the disk. -/
theorem length_lt_walkLevels (hget : t.get? l = some .directory) :
    l.length < Walker.walkLevels d := by
  have hsteps : (List.range l.length).map (fun i => place ++ l.take (i + 1)) ⊆ d.nodes.keys := by
    intro k hk
    obtain ⟨i, hi, rfl⟩ := List.mem_map.1 hk
    have hi : i < l.length := List.mem_range.1 hi
    have hne : place ++ l.take (i + 1) ≠ [] := by
      have hlength : (place ++ l.take (i + 1)).length ≠ 0 := by
        rw [List.length_append, List.length_take]
        omega
      intro hnil
      exact hlength (by rw [hnil]; rfl)
    have hstep : t.get? (l.take (i + 1)) = some .directory :=
      get?_of_prefix (List.take_prefix (i + 1) l) hget
    have hnode : d.nodes.get? (place ++ l.take (i + 1)) = some .directory := by
      have hat := h.nodes (l.take (i + 1))
      rw [hstep, Disk.node?, if_neg (by simpa using hne)] at hat
      exact hat
    rw [Table.mem_keys_iff, hnode]
    rfl
  have hdistinct : ((List.range l.length).map fun i => place ++ l.take (i + 1)).Nodup := by
    refine List.pairwise_map.2 ((List.nodup_range).imp_of_mem ?_)
    intro i j hi hj hne heq
    have hlengths := congrArg List.length (List.append_cancel_left heq)
    rw [List.length_take, List.length_take] at hlengths
    have hi := List.mem_range.1 hi
    have hj := List.mem_range.1 hj
    omega
  have hsize := (List.subperm_of_subset hdistinct hsteps).length_le
  rw [List.length_map, List.length_range] at hsize
  have hkeys : d.nodes.keys.length = d.nodes.size := List.length_map _
  have hsquare := Nat.le_mul_self (d.nodes.size + 1)
  unfold Walker.walkLevels
  omega

theorem levels_le_walkLevels {m : Memory} (hm : t.InMemory m) : m.levels ≤ Walker.walkLevels d := by
  rw [Memory.levels_le_iff]
  refine ⟨h.length_lt_walkLevels get?_nil, fun k hk => ?_⟩
  have hcontains : m.directories.contains k = true := Table.mem_keys_iff.1 hk
  have hdir : m.isDirectory k = true := by simp [Memory.isDirectory, hcontains]
  exact h.length_lt_walkLevels ((hm.directories k).1 hdir)

/-! ## Steps -/

/-- Nothing of a tree is a link, so everything is found as it stands. -/
theorem found_of_get? (hget : t.get? l = some s) (followLinks : Bool)
    (above : List Walker.Ancestor) :
    Walker.found d followLinks above (dir.fullPath l) = .ok (place ++ l, s.node) := by
  unfold Walker.found
  rw [h.lookUp_of_get? false hget]
  cases s with
  | file _ => rfl
  | directory => rfl

omit h in
/-- Names are taken as the tree has them. -/
theorem ordered_names {names : List String} (hnames : names.Perm ((t.entriesIn l).map Entry.fileName)) :
    Walker.ordered Directory.walkOptions names = (t.entriesIn l).map Entry.fileName := by
  have hsorted : ((t.entriesIn l).map Entry.fileName).Pairwise fun a b =>
      SortKey.before a b = true := List.pairwise_map.2 (t.entriesIn_sorted l)
  have hdistinct : (names.map id).Nodup := by
    rw [List.map_id]
    exact hnames.nodup_iff.2 (hsorted.imp SortKey.ne_of_before)
  refine SortKey.eq_of_sorted id (SortKey.sorted_mergeSort id hdistinct) hsorted fun name => ?_
  exact List.mem_mergeSort.trans hnames.mem_iff

/-- Below the start of a walk, everything is yielded, a directory with what is found below it. -/
theorem visit_of_get? (hget : t.get? l = some s) (depth : Nat) (above : List Walker.Ancestor)
    (below : Walker.Ancestor → List WalkItem) :
    Walker.visit Directory.walkOptions d (depth + 1) above below (dir.fullPath l)
      = .ok ⟨dir.fullPath l, s.kind.fileType⟩ ::
        if s.kind = .directory then below ⟨dir.fullPath l, place ++ l⟩ else [] := by
  have hyields : ∀ node : DiskNode,
      Walker.yielded Directory.walkOptions (depth + 1) (dir.fullPath l) node
        = [.ok ⟨dir.fullPath l, node.fileType⟩] :=
    fun _ => if_pos (Nat.le_add_left 1 depth)
  unfold Walker.visit
  rw [h.found_of_get? hget]
  cases s with
  | file _ => exact hyields _
  | directory =>
    dsimp only [Standing.node]
    rw [hyields]
    rfl

/-! ## Walks -/

/-- A walk yields what a walk in memory lists. The induction is on the levels, and each of them is a
listing. -/
theorem walkFrom {m : Memory} (hm : t.InMemory m) (levels depth : Nat)
    (above : List Walker.Ancestor) (hl : t.get? l = some .directory) :
    Walker.walkFrom Directory.walkOptions d levels depth above ⟨dir.fullPath l, place ++ l⟩
      = (m.below levels l).map fun e => .ok ⟨dir.fullPath e.location, e.kind.fileType⟩ := by
  induction levels generalizing l depth above with
  | zero => rfl
  | succ levels ih =>
    obtain ⟨names, hnames, hperm⟩ := h.names_of_directory hl
    obtain ⟨hne, _, _⟩ := h.locate_root
    rw [Walker.walkFrom, hnames, Memory.below, hm.entriesAt, List.map_flatMap]
    show (Walker.ordered Directory.walkOptions names).flatMap _ = _
    rw [ordered_names hperm, List.flatMap_map]
    refine List.flatMap_congr fun e he => ?_
    obtain ⟨name, s, hget, rfl⟩ := mem_entriesIn.1 he
    have hproper := proper_of_get? hget
    have hproper' : l.Proper := hproper.of_sublist (List.sublist_append_left l [name])
    have hname : Entry.fileName ⟨l ++ [name], s.kind⟩ = name := Location.fileName_append l name
    rw [hname, Directory.join_fullPath hne hproper' (hproper name (by simp)),
      h.visit_of_get? hget, List.map_cons]
    cases s with
    | file _ => rfl
    | directory => exact congrArg (List.cons _) (ih _ _ hget)

end FileTree.OnDisk

/-- **Going down before going on is a walk.** -/
theorem Walker.documented_depthFirst : Walker.depthFirst.Documented where
  directory := by
    intro t d dir place l h hl
    have hm := t.inMemory_ofChanges
    obtain ⟨found, hwalked, hbelow⟩ :=
      hm.exists_walked (Nat.le_add_right_of_le (h.levels_le_walkLevels hm) : _ ≤ _ + l.length)
    refine ⟨found, hwalked, ?_⟩
    unfold depthFirst visit
    rw [h.found_of_get? hl]
    show [] ++ walkFrom Directory.walkOptions d (walkLevels d) 0 [] ⟨dir.fullPath l, place ++ l⟩ = _
    rw [List.nil_append, h.walkFrom hm _ _ _ hl, hbelow, List.map_map]
    refine List.map_congr_left fun f _ => ?_
    rw [f.2.fileType_node]
    rfl
  elsewhere := by
    intro t d dir place l h hproper hl item hitem
    unfold depthFirst visit at hitem
    cases hget : t.get? l with
    | none =>
      obtain ⟨cause, hcause⟩ := h.lookUp_of_none false hproper hget
      have hfound : found d Directory.walkOptions.followLinks [] (dir.fullPath l)
          = .error ⟨some (dir.fullPath l), .during (dir.fullPath l) cause⟩ := by
        unfold found
        rw [hcause]
        rfl
      rw [hfound] at hitem
      exact ⟨_, List.mem_singleton.1 hitem⟩
    | some s =>
      rw [h.found_of_get? hget] at hitem
      cases s with
      | file _ => exact absurd hitem List.not_mem_nil
      | directory => exact absurd hget hl

end Stencil
