/-
What walkers promise.

A directory leaves its walks to a walker, and nothing is known of walkers in general but what they
promise of a tree without links. From a directory, a walk comes upon everything below it once. A
directory comes before what lies in it, two things in one directory come in the order of the bytes of
their names, and what lies below a directory follows it before anything else does. From any other
place, a walk comes upon nothing.

These promises leave a walk no choice: they hold exactly if it comes upon what is below in the order
of locations. That is the order of a walk in memory too.
-/
import Stencil.Proofs.DiskTrees
import Stencil.Proofs.MemoryWalks

set_option autoImplicit false

namespace Stencil

/-! ## The order of locations -/

namespace Location

variable {k l m : Location}

/-- Of a location and a later one, either the later one is below the first, or they part at names that
are in this order. -/
theorem prefix_or_part (h : SortKey.before k l = true) :
    k <+: l ∨ ∃ dir x y xs ys, k = dir ++ x :: xs ∧ l = dir ++ y :: ys ∧
      SortKey.before x y = true := by
  induction k generalizing l with
  | nil => exact Or.inl List.nil_prefix
  | cons x xs ih =>
    cases l with
    | nil => exact absurd h Bool.false_ne_true
    | cons y ys =>
      have hcases : SortKey.before x y = true ∨
          SortKey.before y x = false ∧ SortKey.before xs ys = true := by
        simpa [SortKey.before, SortKey.listBefore] using h
      by_cases hxy : SortKey.before x y = true
      · exact Or.inr ⟨[], x, y, xs, ys, rfl, rfl, hxy⟩
      · obtain ⟨hyx, hrest⟩ := hcases.resolve_left hxy
        have hsame : x = y := by
          refine Decidable.byContradiction fun hne => ?_
          rcases SortKey.total x y hne with hback | hback
          · exact hxy hback
          · rw [hyx] at hback
            exact absurd hback Bool.false_ne_true
        subst hsame
        rcases ih hrest with hprefix | ⟨dir, x', y', xs', ys', hx, hy, hbefore⟩
        · exact Or.inl (List.cons_prefix_cons.2 ⟨rfl, hprefix⟩)
        · exact Or.inr ⟨x :: dir, x', y', xs', ys', by rw [hx]; rfl, by rw [hy]; rfl, hbefore⟩

/-- What comes between a location and something below it is below it as well. -/
theorem prefix_of_between (hkl : SortKey.before k l = true) (hlm : SortKey.before l m = true)
    (hm : k <+: m) : k <+: l := by
  rcases prefix_or_part hkl with hprefix | ⟨dir, x, y, xs, ys, rfl, rfl, hxy⟩
  · exact hprefix
  · -- Behind a later name there is no way back to the earlier one.
    obtain ⟨more, rfl⟩ := hm
    have hback := before_append_cons dir hxy (xs ++ more) ys
    rw [← List.cons_append, ← List.append_assoc, SortKey.asymm hlm] at hback
    exact absurd hback Bool.false_ne_true

end Location

/-! ## Walks over a tree -/

namespace FileTree

variable {t : FileTree} {l : Location} {found : List (Location × Standing)}

/-- Says of what a walk from the location `l` of a tree comes upon, by the way from there, that it is
what walkers promise. -/
structure Walked (t : FileTree) (l : Location) (found : List (Location × Standing)) : Prop where
  /-- It is what stands below, -/
  each : ∀ k s, (k, s) ∈ found ↔ k ≠ [] ∧ t.get? (l ++ k) = some s
  /-- and each of it comes once. -/
  once : (found.map Prod.fst).Nodup
  /-- Nothing comes before a directory in which it lies. -/
  parentsFirst : found.Pairwise fun a b => ∀ names, names ≠ [] → a.1 ≠ b.1 ++ names
  /-- Of two things in one directory, the one with the smaller name comes first. -/
  siblings : found.Pairwise fun a b => ∀ dir x y, a.1 = dir ++ [x] → b.1 = dir ++ [y] →
    bytesOf x ≤ bytesOf y
  /-- Of what comes behind something, the first is what lies below it. -/
  depthFirst : ∀ front e back, found = front ++ e :: back →
    back.Pairwise fun a b => e.1 <+: b.1 → e.1 <+: a.1

namespace Walked

/-- Whatever a walk comes upon, it comes upon each directory on the way to it. -/
theorem exists_mem_of_prefix (h : t.Walked l found) {a : Location × Standing} (ha : a ∈ found)
    {k : Location} (hk : k ≠ []) (hway : k <+: a.1) : ∃ s, (k, s) ∈ found := by
  obtain ⟨names, hnames⟩ := hway
  obtain ⟨-, hget⟩ := (h.each a.1 a.2).1 ha
  by_cases hnil : names = []
  · rw [hnil, List.append_nil] at hnames
    exact ⟨a.2, by rwa [hnames]⟩
  · rw [← hnames, ← List.append_assoc] at hget
    exact ⟨.directory, (h.each k .directory).2 ⟨hk, get?_of_append hnil hget⟩⟩

section

variable {front back : List (Location × Standing)} {a b e : Location × Standing}
  (h : t.Walked l (front ++ a :: back))

include h

/-- What comes upon first does not lie below what comes behind it. -/
theorem not_mem_back (he : e.1 <+: a.1) : e ∉ back := by
  intro hback
  obtain ⟨-, hpairs, -⟩ := List.pairwise_append.1 h.parentsFirst
  obtain ⟨names, hnames⟩ := he
  by_cases hnil : names = []
  · -- The two would be the same, which comes only once.
    have honce := List.pairwise_append.1 (List.pairwise_map.1 h.once)
    refine (List.pairwise_cons.1 honce.2.1).1 e hback ?_
    rw [← hnames, hnil, List.append_nil]
  · exact (List.pairwise_cons.1 hpairs).1 e hback names hnil hnames.symm

/-- With something that lies elsewhere in between, a walk does not come back to what is below a
directory. -/
theorem not_mem_front (ha : ¬ e.1 <+: a.1) (hb : b ∈ back) (he : e.1 <+: b.1) : e ∉ front := by
  intro hfront
  obtain ⟨before, between, rfl⟩ := List.append_of_mem hfront
  have hfollow := h.depthFirst before e (between ++ a :: back) (by simp)
  obtain ⟨-, hpairs, -⟩ := List.pairwise_append.1 hfollow
  exact ha ((List.pairwise_cons.1 hpairs).1 b hb he)

/-- What has come upon later does not have the smaller name where two locations part. The things at
these two names come in the wrong order then: the one with the smaller name behind the first of the
two locations, and the other not behind it. -/
theorem not_part (hb : b ∈ back) {dir xs ys : Location} {x y : String} (hax : a.1 = dir ++ x :: xs)
    (hby : b.1 = dir ++ y :: ys) : SortKey.before y x = false := by
  refine Bool.eq_false_iff.2 fun hyx => ?_
  have hxa : dir ++ [x] <+: a.1 := ⟨xs, by rw [hax]; simp⟩
  have hyb : dir ++ [y] <+: b.1 := ⟨ys, by rw [hby]; simp⟩
  have hya : ¬ dir ++ [y] <+: a.1 := by
    rw [hax]
    intro hprefix
    have hnames := (List.prefix_append_right_inj dir).1 hprefix
    exact SortKey.ne_of_before hyx (List.cons_prefix_cons.1 hnames).1
  obtain ⟨sx, hx⟩ := h.exists_mem_of_prefix (a := a) (by simp) (by simp) hxa
  obtain ⟨sy, hy⟩ := h.exists_mem_of_prefix (a := b) (by simp [hb]) (by simp) hyb
  have hyback : (dir ++ [y], sy) ∈ back := by
    rcases List.mem_append.1 hy with hfront | hrest
    · exact absurd hfront (h.not_mem_front hya hb hyb)
    · refine (List.mem_cons.1 hrest).resolve_left ?_
      rintro rfl
      exact hya List.prefix_rfl
  have hpairs := List.pairwise_append.1 h.siblings
  have hle : bytesOf x ≤ bytesOf y := by
    rcases List.mem_append.1 hx with hfront | hrest
    · exact hpairs.2.2 _ hfront _ (List.mem_cons_of_mem a hyback) dir x y rfl rfl
    · rcases List.mem_cons.1 hrest with heq | hback
      · exact (List.pairwise_cons.1 hpairs.2.1).1 _ hyback dir x y (by rw [← heq]) rfl
      · exact absurd hback (h.not_mem_back hxa)
  exact List.not_lt.2 hle ((before_iff_bytesOf_lt y x).1 hyx)

end

/-- **The promises leave one order.** A walk over a tree goes by location, strictly. -/
theorem sorted (h : t.Walked l found) :
    found.Pairwise fun a b => SortKey.before a.1 b.1 = true := by
  rw [List.pairwise_iff_forall_sublist]
  intro a b hab
  obtain ⟨ahead, behind, rfl, ha, hb⟩ := List.cons_sublist_iff.1 hab
  obtain ⟨front, between, rfl⟩ := List.append_of_mem ha
  have hback : b ∈ between ++ behind := by simp [List.singleton_sublist.1 hb]
  rw [List.append_assoc, List.cons_append] at h
  have hup : ¬ b.1 <+: a.1 := fun hway => h.not_mem_back hway hback
  have hne : a.1 ≠ b.1 := by
    intro heq
    exact hup (heq ▸ List.prefix_rfl)
  refine (SortKey.total _ _ hne).resolve_right fun hba => ?_
  rcases Location.prefix_or_part hba with hway | ⟨dir, y, x, ys, xs, hby, hax, hyx⟩
  · exact hup hway
  · rw [h.not_part hback hax hby] at hyx
    exact Bool.false_ne_true hyx

/-- Whatever is below a directory, in the order of locations, is a walk. -/
theorem of_sorted (heach : ∀ k s, (k, s) ∈ found ↔ k ≠ [] ∧ t.get? (l ++ k) = some s)
    (hsorted : found.Pairwise fun a b => SortKey.before a.1 b.1 = true) : t.Walked l found where
  each := heach
  once := List.pairwise_map.2 (hsorted.imp SortKey.ne_of_before)
  parentsFirst := by
    refine hsorted.imp ?_
    intro a b hab names hne heq
    have hback := Location.before_append b.1 hne
    rw [← heq, SortKey.asymm hab] at hback
    exact Bool.false_ne_true hback
  siblings := by
    refine hsorted.imp ?_
    intro a b hab dir x y ha hb
    rw [ha, hb] at hab
    have hxy : SortKey.before x y = true := by rwa [← SortKey.listBefore_concat dir]
    exact (List.le_of_lt ((before_iff_bytesOf_lt x y).1 hxy))
  depthFirst := by
    rintro front e back rfl
    obtain ⟨-, hback, -⟩ := List.pairwise_append.1 hsorted
    obtain ⟨hafter, hback⟩ := List.pairwise_cons.1 hback
    refine hback.imp_of_mem ?_
    intro a b ha _ hab
    exact Location.prefix_of_between (hafter a ha) hab

theorem unique {found' : List (Location × Standing)} (h : t.Walked l found)
    (h' : t.Walked l found') : found = found' := by
  refine SortKey.eq_of_sorted Prod.fst h.sorted h'.sorted fun f => ?_
  exact (h.each f.1 f.2).trans (h'.each f.1 f.2).symm

end Walked

/-! ## Walks in memory -/

namespace InMemory

variable {m : Memory} (h : t.InMemory m)

include h

theorem named : m.Named := by
  constructor
  · intro l text hget
    exact proper_of_get? ((h.files l text).1 hget)
  · intro l hcontains
    exact proper_of_get? ((h.directories l).1 (by simp [Memory.isDirectory, hcontains]))

theorem closed : m.Closed := by
  constructor
  · intro l hfile
    obtain ⟨text, htext⟩ := h.contains_files.1 hfile
    rw [h.directories]
    have hne : l ≠ [] := by
      rintro rfl
      exact absurd htext (by simp)
    rw [← List.dropLast_concat_getLast hne] at htext
    exact get?_of_append (List.cons_ne_nil _ []) htext
  · intro l k hdir hway
    rw [h.directories] at hdir ⊢
    exact get?_of_prefix hway hdir

theorem stands_iff {e : Entry} : m.Stands e ↔ ∃ s, t.get? e.location = some s ∧ s.kind = e.kind := by
  obtain ⟨location, kind⟩ := e
  cases kind with
  | file =>
    refine h.contains_files.trans ⟨fun ⟨text, htext⟩ => ⟨_, htext, rfl⟩, ?_⟩
    rintro ⟨s, hs, hkind⟩
    cases s with
    | file text => exact ⟨text, hs⟩
    | directory => exact absurd hkind (by simp [Standing.kind])
  | directory =>
    refine (h.directories location).trans ⟨fun hdir => ⟨_, hdir, rfl⟩, ?_⟩
    rintro ⟨s, hs, hkind⟩
    cases s with
    | file text => exact absurd hkind (by simp [Standing.kind])
    | directory => exact hs

/-- With enough levels, what is below a directory in memory is a walk over the tree. -/
theorem exists_walked {levels : Nat} (hlevels : m.levels ≤ levels + l.length) :
    ∃ found, t.Walked l found ∧
      m.below levels l = found.map fun f => ⟨l ++ f.1, f.2.kind⟩ := by
  have hmem : ∀ e, e ∈ m.below levels l ↔
      ∃ f : Location × Standing, (f.1 ≠ [] ∧ t.get? (l ++ f.1) = some f.2) ∧
        (⟨l ++ f.1, f.2.kind⟩ : Entry) = e := by
    intro e
    rw [h.closed.mem_below_iff hlevels, h.stands_iff]
    constructor
    · rintro ⟨⟨names, hne, hlocation⟩, s, hget, hkind⟩
      rw [hlocation] at hget
      exact ⟨(names, s), ⟨hne, hget⟩, by rw [← hlocation, hkind]⟩
    · rintro ⟨⟨names, s⟩, ⟨hne, hget⟩, rfl⟩
      exact ⟨⟨names, hne, rfl⟩, s, hget, rfl⟩
  obtain ⟨found, hfound, hmap⟩ := exists_map_eq fun e he => (hmem e).1 he
  refine ⟨found, Walked.of_sorted ?_ ?_, hmap.symm⟩
  · intro k s
    refine ⟨hfound (k, s), fun hk => ?_⟩
    have hin : (⟨l ++ k, s.kind⟩ : Entry) ∈ m.below levels l := (hmem _).2 ⟨(k, s), hk, rfl⟩
    rw [← hmap] at hin
    obtain ⟨⟨k', s'⟩, hf, heq⟩ := List.mem_map.1 hin
    obtain ⟨rfl⟩ : k' = k := List.append_cancel_left (congrArg Entry.location heq)
    have hs : s' = s := Option.some.inj ((hfound _ hf).2.symm.trans hk.2)
    rwa [← hs]
  · have hpairs := m.below_precedes levels l
    rw [← hmap] at hpairs
    refine (List.pairwise_map.1 hpairs).imp_of_mem ?_
    rintro ⟨k, s⟩ ⟨k', s'⟩ hf hf' (hbefore | ⟨hsame, hfile, hdir⟩)
    · exact (SortKey.listBefore_append l k k').symm.trans hbefore
    · -- The same location would hold a file and a directory.
      have hk : k = k' := List.append_cancel_left hsame
      have hs : s = s' := by
        refine Option.some.inj ((hfound _ hf).2.symm.trans ?_)
        rw [hk]
        exact (hfound _ hf').2
      rw [hs, hdir] at hfile
      exact absurd hfile (by decide)

end InMemory

end FileTree

/-! ## Walkers -/

/-- Says of a walker that it does what walkers promise, asked in the way in which directories ask, of
any tree without links. What it yields are paths behind the one at which it starts. -/
structure Walker.Documented (walker : Walker) : Prop where
  directory : ∀ {t : FileTree} {d : Disk} {dir : Directory} {place l : Location},
    t.OnDisk d dir place → t.get? l = some .directory →
    ∃ found, t.Walked l found ∧ walker Directory.walkOptions d (dir.fullPath l) =
      found.map fun f => .ok ⟨dir.fullPath (l ++ f.1), f.2.node.fileType⟩
  elsewhere : ∀ {t : FileTree} {d : Disk} {dir : Directory} {place l : Location},
    t.OnDisk d dir place → l.Proper → t.get? l ≠ some .directory →
    ∀ item ∈ walker Directory.walkOptions d (dir.fullPath l), ∃ failure, item = .error failure

end Stencil
