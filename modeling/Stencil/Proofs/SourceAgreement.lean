/-
A tree answers alike in memory and on a disk.

Both kinds of sources have the tree's answer to a question about one path. A disk lists names in an
order of its own, but the entries are sorted by name in the end, and a walk is left to a walker, but
what it promises of a tree leaves it no choice. So both are what they are in memory, whatever the disk
and whatever the walker.
-/
import Stencil.Proofs.DepthFirstTrees

set_option autoImplicit false

namespace Stencil

open Stencil.Runs

variable {α : Type}

/-! ## Answers -/

/-- Says that two answers are the same to a caller: one succeeds exactly if the other does, with the
same, and they refuse the same paths for leading outside. -/
structure Agrees (x y : Except FileError α) : Prop where
  success : ∀ a, x = .ok a ↔ y = .ok a
  outside : ∀ q, x = .error (.pathOutsideRoot q) ↔ y = .error (.pathOutsideRoot q)

namespace Agrees

theorem refl (x : Except FileError α) : Agrees x x := ⟨fun _ => Iff.rfl, fun _ => Iff.rfl⟩

/-- A path that is missing in memory is refused by the system. -/
theorem of_failures {p q : Path} {cause : IoCause} :
    Agrees (.error (.notFound p) : Except FileError α) (.error (FileError.ofCause q cause)) := by
  constructor
  · intro a
    simp
  · intro outside
    have hcause := FileError.ofCause_ne_pathOutsideRoot q outside cause
    simp [hcause]

end Agrees

/-! ## Walks -/

namespace FileTree

variable {t : FileTree} {l : Location}

/-- What a walk yields is an entry by its location in the source, the root cut off from its path. -/
theorem mapM_entryOf {dir : Directory} (hroot : dir.root.text ≠ "") (start : Path)
    {found : List (Location × Standing)} (hfound : ∀ f ∈ found, Location.Proper (l ++ f.1)) :
    (found.map fun f => (.ok ⟨dir.fullPath (l ++ f.1), f.2.node.fileType⟩ : WalkItem)).mapM
        (dir.entryOf start)
      = .ok (found.map fun f => ⟨l ++ f.1, f.2.kind⟩) := by
  induction found with
  | nil => rfl
  | cons f found ih =>
    obtain ⟨hfirst, hrest⟩ := List.forall_mem_cons.1 hfound
    have hone : dir.entryOf start (.ok ⟨dir.fullPath (l ++ f.1), f.2.node.fileType⟩)
        = .ok ⟨l ++ f.1, f.2.kind⟩ := by
      unfold Directory.entryOf
      dsimp only
      rw [Directory.relative_fullPath hroot hfirst, f.2.kindOf_node]
      rfl
    rw [List.map_cons, List.mapM_cons, hone, ih hrest]
    rfl

namespace OnDisk

variable {d : Disk} {dir : Directory} {place : Location} {walker : Walker}
  (h : t.OnDisk d dir place) (hwalker : walker.Documented)

include h hwalker

theorem exists_walk {p : Path} (hp : p.location? = some l) (hl : t.get? l = some .directory) :
    ∃ found, t.Walked l found ∧
      dir.walk walker d p = .ok (found.map fun f => ⟨l ++ f.1, f.2.kind⟩) := by
  obtain ⟨hroot, _, _⟩ := h.locate_root
  obtain ⟨found, hwalked, hyields⟩ := hwalker.directory h hl
  refine ⟨found, hwalked, ?_⟩
  rw [Directory.walk_of_location hp, hyields]
  refine mapM_entryOf hroot _ fun f hf => ?_
  exact proper_of_get? ((hwalked.each f.1 f.2).1 hf).2

/-- A walk from a path that stays below the root never says that the path leads outside. -/
theorem walk_ne_outside {p : Path} (hp : p.location? = some l) (q : Path) :
    dir.walk walker d p ≠ .error (.pathOutsideRoot q) := by
  by_cases hl : t.get? l = some .directory
  · obtain ⟨found, -, hwalk⟩ := h.exists_walk hwalker hp hl
    rw [hwalk]
    simp
  · have helse := hwalker.elsewhere h (Path.proper_of_location? hp) hl
    rw [Directory.walk_of_location hp]
    cases hitems : walker Directory.walkOptions d (dir.fullPath l) with
    | nil => simp [pure, Except.pure]
    | cons item items =>
      obtain ⟨failure, rfl⟩ := helse item (by rw [hitems]; exact List.mem_cons_self)
      rw [List.mapM_cons]
      intro heq
      exact FileError.ofCause_ne_pathOutsideRoot _ _ _ (Except.error.inj heq)

end OnDisk

/-! ## Both sources -/

section

variable {m : Memory} {d : Disk} {dir : Directory} {place : Location} (hm : t.InMemory m)
  (hd : t.OnDisk d dir place)

include hm hd

theorem metadata_agrees (p : Path) : Agrees (m.metadata p) (dir.metadata d p) := by
  cases hp : p.location? with
  | none =>
    unfold Memory.metadata Directory.metadata
    rw [Path.location_of_none hp]
    exact .refl _
  | some l =>
    rw [hm.metadata hp]
    cases hget : t.get? l with
    | none =>
      obtain ⟨cause, hcause⟩ := hd.metadata_of_none hp hget
      rw [hcause]
      exact .of_failures
    | some s =>
      rw [hd.metadata_of_get? hp hget]
      exact .refl _

theorem read_agrees (p : Path) : Agrees (m.read p) (dir.read d p) := by
  cases hp : p.location? with
  | none =>
    unfold Memory.read Directory.read
    rw [Path.location_of_none hp]
    exact .refl _
  | some l =>
    rw [hm.read hp]
    by_cases hfile : ∃ text, t.get? l = some (.file text)
    · obtain ⟨text, htext⟩ := hfile
      rw [hd.read_of_file hp htext, htext]
      exact .refl _
    · have hnone : ∀ text, t.get? l ≠ some (.file text) := fun text htext => hfile ⟨text, htext⟩
      obtain ⟨cause, hcause⟩ := hd.read_of_not_file hp hnone
      rw [hcause]
      split
      · rename_i text htext
        exact absurd htext (hnone text)
      · exact .of_failures

theorem list_agrees (p : Path) : Agrees (m.list p) (dir.list d p) := by
  cases hp : p.location? with
  | none =>
    unfold Memory.list Directory.list
    rw [Path.location_of_none hp]
    exact .refl _
  | some l =>
    rw [hm.list hp]
    by_cases hdir : t.get? l = some .directory
    · rw [if_pos hdir, hd.list_of_directory hp hdir]
      exact .refl _
    · obtain ⟨cause, hcause⟩ := hd.list_of_not_directory hp hdir
      rw [if_neg hdir, hcause]
      exact .of_failures

variable {walker : Walker} (hwalker : walker.Documented)

include hwalker

theorem walk_agrees {p : Path} {l : Location} (hp : p.location? = some l)
    (hl : t.get? l = some .directory) :
    ∃ entries, m.walk p = .ok entries ∧ dir.walk walker d p = .ok entries := by
  obtain ⟨found, hwalked, hwalk⟩ := hd.exists_walk hwalker hp hl
  obtain ⟨found', hwalked', hbelow⟩ :=
    hm.exists_walked (l := l) (Nat.le_add_right m.levels l.length)
  have hmemory : m.walk p = .ok (m.below m.levels l) :=
    hm.named.walkBy m.levels hp ((hm.directories l).2 hl)
  rw [hbelow, hwalked'.unique hwalked] at hmemory
  exact ⟨_, hmemory, hwalk⟩

theorem walk_outside_iff (p q : Path) :
    m.walk p = .error (.pathOutsideRoot q) ↔ dir.walk walker d p = .error (.pathOutsideRoot q) := by
  obtain ⟨n, hn⟩ := m.exists_levels
  cases hp : p.location? with
  | none =>
    unfold Memory.walk Directory.walk
    rw [hn, Source.walkBy, Memory.list, Path.location_of_none hp]
    exact Iff.rfl
  | some l =>
    refine iff_of_false ?_ (hd.walk_ne_outside hwalker hp q)
    by_cases hdir : t.get? l = some .directory
    · obtain ⟨entries, hwalk, -⟩ := walk_agrees hm hd hwalker hp hdir
      rw [hwalk]
      simp
    · unfold Memory.walk
      rw [hn, Source.walkBy, hm.list hp, if_neg hdir]
      simp [bind, Except.bind]

/-- **A tree in memory and the same tree on a disk are the same source.** Of every path they say that
the same stands there, they give the same text and the same listing, and where one fails the other
does too. From every directory they walk over the same entries in the same order. And one refuses a
path for leading outside exactly if the other does. This is so on a disk that lists names in any
order, with any walker that does what walkers promise. -/
theorem sources_agree (p : Path) :
    Agrees (m.metadata p) (dir.metadata d p) ∧ Agrees (m.read p) (dir.read d p) ∧
    Agrees (m.list p) (dir.list d p) ∧
    (∀ l, p.location? = some l → t.get? l = some .directory →
      ∃ entries, m.walk p = .ok entries ∧ dir.walk walker d p = .ok entries) ∧
    ∀ q, m.walk p = .error (.pathOutsideRoot q) ↔
      dir.walk walker d p = .error (.pathOutsideRoot q) :=
  ⟨metadata_agrees hm hd p, read_agrees hm hd p, list_agrees hm hd p,
    fun _ hp hl => walk_agrees hm hd hwalker hp hl, walk_outside_iff hm hd hwalker p⟩

end

/-- Views in two directories, with a directory and a file that share the beginning of their names, and
a directory with nothing in it. -/
def ofViews : FileTree :=
  ofTable (Table.ofList [(["views"], .directory), (["views", "b.html"], .file "b"),
    (["views", "a"], .directory), (["views", "a", "c.html"], .file "c"),
    (["views", "a.html"], .file "a"), (["empty"], .directory)]) (by decide +kernel)

/-- A disk with nothing on it that lists names backwards. -/
def backwards : Disk where
  nodes := Table.empty
  arrange := fun _ names => names.reverse
  arrange_perm := fun _ names => names.reverse_perm

/-- The same views in memory and at the top of a disk that lists names backwards, walked over depth
first. -/
theorem sources_agree_ofViews :
    (ofViews.disk backwards).names ⟨"/views"⟩ = .ok ["b.html", "a.html", "a"] ∧
      Directory.list ⟨⟨"/"⟩⟩ (ofViews.disk backwards) ⟨"views"⟩
        = .ok [⟨["views", "a"], .directory⟩, ⟨["views", "a.html"], .file⟩,
          ⟨["views", "b.html"], .file⟩] ∧
      Directory.walk ⟨⟨"/"⟩⟩ .depthFirst (ofViews.disk backwards) ⟨"./views/"⟩
        = .ok [⟨["views", "a"], .directory⟩, ⟨["views", "a", "c.html"], .file⟩,
          ⟨["views", "a.html"], .file⟩, ⟨["views", "b.html"], .file⟩] ∧
      (Memory.ofChanges ofViews.changes).walk ⟨"./views/"⟩
        = Directory.walk ⟨⟨"/"⟩⟩ .depthFirst (ofViews.disk backwards) ⟨"./views/"⟩ ∧
      Directory.read ⟨⟨"/"⟩⟩ (ofViews.disk backwards) ⟨"views/a.html"⟩ = .ok "a" ∧
      Directory.list ⟨⟨"/"⟩⟩ (ofViews.disk backwards) ⟨"empty/../views"⟩
        = .error (.pathOutsideRoot ⟨"empty/../views"⟩) := by
  have hmemory := inMemory_ofChanges ofViews
  have hdisk : ofViews.OnDisk (ofViews.disk backwards) ⟨⟨"/"⟩⟩ [] :=
    onDisk_disk backwards (by decide +kernel)
  have hagree := sources_agree hmemory hdisk Walker.documented_depthFirst
  have hviews : ofViews.get? ["views"] = some .directory := by decide +kernel
  have hin : ofViews.entriesIn ["views"]
      = [⟨["views", "a"], .directory⟩, ⟨["views", "a.html"], .file⟩,
        ⟨["views", "b.html"], .file⟩] := by decide +kernel
  have hlist : (Memory.ofChanges ofViews.changes).list ⟨"views"⟩
      = .ok [⟨["views", "a"], .directory⟩, ⟨["views", "a.html"], .file⟩,
        ⟨["views", "b.html"], .file⟩] := by
    rw [hmemory.list (l := ["views"]) (by decide +kernel), if_pos hviews, hin]
  have hwalk : (Memory.ofChanges ofViews.changes).walk ⟨"./views/"⟩
      = .ok [⟨["views", "a"], .directory⟩, ⟨["views", "a", "c.html"], .file⟩,
        ⟨["views", "a.html"], .file⟩, ⟨["views", "b.html"], .file⟩] := by
    have hbelow : (Memory.ofChanges ofViews.changes).below
          (Memory.ofChanges ofViews.changes).levels ["views"]
        = [⟨["views", "a"], .directory⟩, ⟨["views", "a", "c.html"], .file⟩,
          ⟨["views", "a.html"], .file⟩, ⟨["views", "b.html"], .file⟩] := by
      have hlevels : (Memory.ofChanges ofViews.changes).levels = 3 := by decide +kernel
      have hinside : ofViews.entriesIn ["views", "a"] = [⟨["views", "a", "c.html"], .file⟩] := by
        decide +kernel
      rw [hlevels]
      simp [Memory.below, hmemory.entriesAt, hin, hinside]
    rw [← hbelow]
    exact hmemory.named.walkBy _ (by decide +kernel) ((hmemory.directories _).2 hviews)
  obtain ⟨entries, hfound, hondisk⟩ :=
    (hagree ⟨"./views/"⟩).2.2.2.1 ["views"] (by decide +kernel) hviews
  have hread : (Memory.ofChanges ofViews.changes).read ⟨"views/a.html"⟩ = .ok "a" := by
    rw [← toOption_eq_some]
    decide +kernel
  refine ⟨?_, ?_, ?_, ?_, ?_, ?_⟩
  · rw [← toOption_eq_some]
    decide +kernel
  · exact ((hagree ⟨"views"⟩).2.2.1.success _).1 hlist
  · rw [hondisk, ← hfound, hwalk]
  · rw [hondisk, hfound]
  · exact ((hagree ⟨"views/a.html"⟩).2.1.success "a").1 hread
  · apply ((hagree ⟨"empty/../views"⟩).2.2.1.outside _).1
    unfold Memory.list
    rw [Path.location_of_none (by decide +kernel)]
    rfl

end FileTree

end Stencil
