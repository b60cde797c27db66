/-
Walks in memory.

A walk lists all that is below a directory, each thing once and in the order of locations, where
locations are compared name by name: what a directory holds comes between the directory and the next
name beside it, which is not the order of the paths' texts. A file and a directory may have the same
location, and then the file comes first. All this is one relation between entries that stand one
before the other in a walk, and it is strict, so nothing comes twice.

That nothing is missing rests on the changes: whatever they add, they add with all directories on the
way, and no change takes a directory away. So the way from the start of a walk to anything below it is
listed one directory after the other, and a walk goes down as far as there are directories.
-/
import Stencil.Proofs.ByteOrder
import Stencil.Proofs.MemoryCoherence

set_option autoImplicit false

namespace Stencil

/-! ## The order of a walk -/

/-- Says of two entries that the first comes before the second in a walk: it is at an earlier location,
or it is a file at the location of a directory. -/
def Entry.Precedes (a b : Entry) : Prop :=
  SortKey.before a.location b.location = true ∨
    a.location = b.location ∧ a.kind = .file ∧ b.kind = .directory

/-- A location comes before everything below it. -/
theorem Location.before_append (l : Location) {names : Location} (h : names ≠ []) :
    SortKey.before l (l ++ names) = true := by
  obtain ⟨name, rest, rfl⟩ := List.exists_cons_of_ne_nil h
  have hbelow := SortKey.listBefore_append l [] (name :: rest)
  rw [List.append_nil] at hbelow
  exact hbelow

/-- What is below a location comes before all that is below a later one beside it. -/
theorem Location.before_append_cons (l : Location) {a b : String} (h : SortKey.before a b = true)
    (as bs : Location) : SortKey.before (l ++ a :: as) (l ++ b :: bs) = true := by
  have hbeside := SortKey.listBefore_append l (a :: as) (b :: bs)
  refine hbeside.trans ?_
  rw [SortKey.listBefore, h]
  rfl

namespace Entry.Precedes

variable {a b : Entry}

theorem ne (h : a.Precedes b) : a ≠ b := by
  rintro rfl
  rcases h with h | ⟨-, hfile, hdir⟩
  · exact SortKey.ne_of_before h rfl
  · rw [hfile] at hdir
    cases hdir

theorem not_before (h : a.Precedes b) : SortKey.before b.location a.location = false := by
  rcases h with h | ⟨heq, -, -⟩
  · exact SortKey.asymm h
  · rw [heq, SortKey.irrefl]

/-- Locations are compared name by name, and names by their bytes. -/
theorem bytes_le (h : a.Precedes b) : a.location.map bytesOf ≤ b.location.map bytesOf := by
  refine List.not_lt.1 fun hback => ?_
  rw [← before_iff_map_bytesOf_lt, h.not_before] at hback
  exact absurd hback Bool.false_ne_true

theorem trans {c : Entry} (h : a.Precedes b) (h' : b.Precedes c) : a.Precedes c := by
  rcases h with h | ⟨heq, hfile, hdir⟩
  · left
    rcases h' with h' | ⟨heq', -, -⟩
    · exact SortKey.trans _ _ _ h h'
    · rwa [← heq']
  · rcases h' with h' | ⟨-, hfile', -⟩
    · left
      rwa [heq]
    · rw [hdir] at hfile'
      cases hfile'

/-- Entries of one directory come by name, a file before a directory of its name. -/
theorem of_names {dir : Location} (ha : a.location = dir ++ [a.fileName])
    (hb : b.location = dir ++ [b.fileName])
    (h : SortKey.before a.fileName b.fileName = true ∨
      a.fileName = b.fileName ∧ a.kind = .file ∧ b.kind = .directory) : a.Precedes b := by
  rcases h with h | ⟨hname, hkinds⟩
  · left
    rw [ha, hb]
    exact Location.before_append_cons dir h [] []
  · right
    exact ⟨by rw [ha, hb, hname], hkinds⟩

/-- If an entry comes before another one of its directory, so does all that is below it before all that
is below the other. A file has nothing below it. -/
theorem below {x y : Entry} {dir as bs : Location} (h : a.Precedes b)
    (ha : a.location = dir ++ [a.fileName]) (hb : b.location = dir ++ [b.fileName])
    (hx : x = a ∨ a.kind = .directory ∧ x.location = a.location ++ as)
    (hy : y = b ∨ bs ≠ [] ∧ y.location = b.location ++ bs) : x.Precedes y := by
  rcases h with h | ⟨heq, hfile, hdir⟩
  · left
    have hnames : SortKey.before a.fileName b.fileName = true := by
      rw [ha, hb] at h
      rwa [← SortKey.listBefore_concat dir]
    have hlocation : ∀ (e : Entry) (more : Location), e.location = dir ++ [e.fileName] →
        e.location ++ more = dir ++ e.fileName :: more := by
      intro e more he
      conv_lhs => rw [he]
      rw [List.append_assoc, List.singleton_append]
    obtain ⟨as', hx⟩ : ∃ as', x.location = a.location ++ as' := by
      rcases hx with rfl | ⟨-, hx⟩
      · exact ⟨[], (List.append_nil _).symm⟩
      · exact ⟨as, hx⟩
    obtain ⟨bs', hy⟩ : ∃ bs', y.location = b.location ++ bs' := by
      rcases hy with rfl | ⟨-, hy⟩
      · exact ⟨[], (List.append_nil _).symm⟩
      · exact ⟨bs, hy⟩
    rw [hx, hy, hlocation a _ ha, hlocation b _ hb]
    exact Location.before_append_cons dir hnames as' bs'
  · obtain rfl : x = a := by
      rcases hx with hx | ⟨hkind, -⟩
      · exact hx
      · rw [hfile] at hkind
        cases hkind
    rcases hy with rfl | ⟨hne, hy⟩
    · exact Or.inr ⟨heq, hfile, hdir⟩
    · left
      rw [hy, ← heq]
      exact Location.before_append _ hne

end Entry.Precedes

/-- In a list in the order of a walk, what has an earlier location comes earlier. -/
theorem Entry.mem_front_of_before {front back : List Entry} {d e : Entry}
    (hsorted : (front ++ e :: back).Pairwise Entry.Precedes) (hd : d ∈ front ++ e :: back)
    (hbefore : SortKey.before d.location e.location = true) : d ∈ front := by
  rcases List.mem_append.1 hd with hfront | hback
  · exact hfront
  · rcases List.mem_cons.1 hback with rfl | hback
    · rw [SortKey.irrefl] at hbefore
      exact absurd hbefore Bool.false_ne_true
    · have hafter := (List.pairwise_cons.1 (List.pairwise_append.1 hsorted).2.1).1 _ hback
      rw [hafter.not_before] at hbefore
      exact absurd hbefore Bool.false_ne_true

namespace Memory

variable {m : Memory}

/-! ## Listings -/

/-- Lists in order are merged in order, if the test of the merge agrees with it on elements of
different lists. -/
theorem pairwise_merge_of_cross {α : Type} {r : α → α → Prop} {le : α → α → Bool}
    (htrans : ∀ a b c, r a b → r b c → r a c) {as bs : List α} (has : as.Pairwise r)
    (hbs : bs.Pairwise r) (hcross : ∀ a ∈ as, ∀ b ∈ bs, if le a b then r a b else r b a) :
    (as.merge bs le).Pairwise r := by
  induction as generalizing bs with
  | nil => rwa [List.nil_merge]
  | cons a as iha =>
    induction bs with
    | nil => rwa [List.merge_right]
    | cons b bs ihb =>
      obtain ⟨ha, has'⟩ := List.pairwise_cons.1 has
      obtain ⟨hb, hbs'⟩ := List.pairwise_cons.1 hbs
      have hhere := hcross a List.mem_cons_self b List.mem_cons_self
      by_cases hle : le a b = true
      · rw [if_pos hle] at hhere
        rw [List.cons_merge_cons_pos _ _ _ hle, List.pairwise_cons]
        refine ⟨fun x hx => ?_, iha has' hbs fun c hc => hcross c (List.mem_cons_of_mem a hc)⟩
        rcases List.mem_merge.1 hx with hx | hx
        · exact ha x hx
        · rcases List.mem_cons.1 hx with rfl | hx
          · exact hhere
          · exact htrans _ _ _ hhere (hb x hx)
      · rw [if_neg hle] at hhere
        rw [List.cons_merge_cons_neg _ _ _ hle, List.pairwise_cons]
        refine ⟨fun x hx => ?_,
          ihb hbs' fun c hc d hd => hcross c hc d (List.mem_cons_of_mem b hd)⟩
        rcases List.mem_merge.1 hx with hx | hx
        · rcases List.mem_cons.1 hx with rfl | hx
          · exact hhere
          · exact htrans _ _ _ hhere (ha x hx)
        · exact hb x hx

/-- A listing is in the order of a walk: of a file and a directory with the same name, the merge takes
the file first. -/
theorem entriesAt_precedes (m : Memory) (dir : Location) :
    (m.entriesAt dir).Pairwise Entry.Precedes := by
  have hchild : ∀ {ls : List Location} {kind : EntryKind},
      ∀ e ∈ (children dir ls).map fun l => (⟨l, kind⟩ : Entry),
        e.location = dir ++ [e.fileName] ∧ e.kind = kind := by
    intro ls kind e he
    obtain ⟨l, hl, rfl⟩ := List.mem_map.1 he
    exact ⟨Location.eq_of_parent? (by simpa using (List.mem_filter.1 hl).2), rfl⟩
  have hsorted : ∀ {ls : List Location} (kind : EntryKind),
      (ls.Pairwise fun a b => SortKey.before a b = true) →
      ((children dir ls).map fun l => (⟨l, kind⟩ : Entry)).Pairwise Entry.Precedes :=
    fun kind hls => (names_sorted dir kind hls).imp_of_mem fun ha hb hab =>
      .of_names (hchild _ ha).1 (hchild _ hb).1 (Or.inl hab)
  refine pairwise_merge_of_cross (r := Entry.Precedes) (fun _ _ _ => Entry.Precedes.trans)
    (hsorted .file m.files.keys_sorted) (hsorted .directory m.directories.keys_sorted) ?_
  intro f hf d hd
  obtain ⟨hflocation, hfkind⟩ := hchild f hf
  obtain ⟨hdlocation, hdkind⟩ := hchild d hd
  cases hback : SortKey.before d.fileName f.fileName with
  | true => exact .of_names hdlocation hflocation (Or.inl hback)
  | false =>
    refine .of_names hflocation hdlocation ?_
    by_cases hname : f.fileName = d.fileName
    · exact Or.inr ⟨hname, hfkind, hdkind⟩
    · exact Or.inl ((SortKey.total _ _ hname).resolve_right (by simp [hback]))

/-- Says that an entry is in the tree. -/
def Stands (m : Memory) (e : Entry) : Prop :=
  match e.kind with
  | .file => m.files.contains e.location = true
  | .directory => m.isDirectory e.location = true

theorem mem_entriesAt_iff {dir : Location} {e : Entry} :
    e ∈ m.entriesAt dir ↔ e.location = dir ++ [e.fileName] ∧ m.Stands e := by
  obtain ⟨l, kind⟩ := e
  have hparent : l.parent? = some dir ↔ l = dir ++ [l.fileName] := by
    refine ⟨Location.eq_of_parent?, fun h => ?_⟩
    rw [h]
    simp [Location.parent?]
  have hdir : l = dir ++ [l.fileName] → (m.isDirectory l = true ↔ m.directories.contains l = true) := by
    intro h
    have hne : l ≠ [] := by
      rw [h]
      simp
    simp [isDirectory, hne]
  have hmap : ∀ {ls : List Location} {kind' : EntryKind},
      (⟨l, kind⟩ : Entry) ∈ ((children dir ls).map fun l => ⟨l, kind'⟩)
        ↔ (l ∈ ls ∧ l.parent? = some dir) ∧ kind' = kind := by
    intro ls kind'
    simp [children]
  unfold entriesAt mergeByName
  rw [List.mem_merge, hmap, hmap, Table.mem_keys_iff, Table.mem_keys_iff, hparent]
  show _ ↔ l = dir ++ [l.fileName] ∧ _
  cases kind with
  | file => simp [Stands, Table.contains, and_comm]
  | directory =>
    simp only [Stands, reduceCtorEq, and_false, and_true, false_or]
    rw [and_comm]
    exact and_congr_right fun h => (hdir h).symm

/-! ## What is below a directory -/

/-- What is below a location, each directory with what it holds behind it, at most `levels` of them
inside each other. -/
def below (m : Memory) : (levels : Nat) → Location → List Entry
  | 0, _ => []
  | levels + 1, dir => (m.entriesAt dir).flatMap fun e =>
      e :: if e.kind = .directory then m.below levels e.location else []

theorem Named.walkBy (h : m.Named) (levels : Nat) {p : Path} {dir : Location}
    (hp : p.location? = some dir) (hdir : m.isDirectory dir = true) :
    Source.walkBy m.list levels p = .ok (m.below levels dir) := by
  induction levels generalizing p dir with
  | zero => rfl
  | succ levels ih =>
    have hlist : m.list p = .ok (m.entriesAt dir) := list_eq_ok_iff.2 ⟨dir, hp, hdir, rfl⟩
    rw [Source.walkBy, hlist, below]
    apply expand_of_ok
    intro e he hkind
    exact ih (h.location?_of_mem_entriesAt he) ((h.holds he).directory hkind)

theorem exists_location_of_mem_below {levels : Nat} {dir : Location} {e : Entry}
    (he : e ∈ m.below levels dir) : ∃ names, names ≠ [] ∧ e.location = dir ++ names := by
  induction levels generalizing dir with
  | zero => exact absurd he List.not_mem_nil
  | succ levels ih =>
    obtain ⟨d, hd, he⟩ := List.mem_flatMap.1 he
    have hlocation := (mem_entriesAt_iff.1 hd).1
    rcases List.mem_cons.1 he with rfl | he
    · exact ⟨[e.fileName], List.cons_ne_nil _ _, hlocation⟩
    · split at he
      · obtain ⟨names, -, hnames⟩ := ih he
        rw [hlocation, List.append_assoc] at hnames
        exact ⟨_, List.cons_ne_nil _ _, hnames⟩
      · exact absurd he List.not_mem_nil

/-- Whatever is below a directory comes in the order of a walk. The induction is on the levels; what
two entries of one listing hold is in the order of these two. -/
theorem below_precedes (m : Memory) (levels : Nat) (dir : Location) :
    (m.below levels dir).Pairwise Entry.Precedes := by
  induction levels generalizing dir with
  | zero => exact .nil
  | succ levels ih =>
    rw [below, List.pairwise_flatMap]
    constructor
    · intro e _
      rw [List.pairwise_cons]
      constructor
      · intro x hx
        split at hx
        · obtain ⟨names, hne, hlocation⟩ := exists_location_of_mem_below hx
          left
          rw [hlocation]
          exact Location.before_append _ hne
        · exact absurd hx List.not_mem_nil
      · split
        · exact ih _
        · exact .nil
    · have hinside : ∀ {e x : Entry}, x ∈ (e :: if e.kind = .directory then
          m.below levels e.location else []) →
          ∃ names, x = e ∨ e.kind = .directory ∧ names ≠ [] ∧ x.location = e.location ++ names := by
        intro e x hx
        rcases List.mem_cons.1 hx with rfl | hx
        · exact ⟨[], Or.inl rfl⟩
        · split at hx
          · rename_i hkind
            obtain ⟨names, hne, hlocation⟩ := exists_location_of_mem_below hx
            exact ⟨names, Or.inr ⟨hkind, hne, hlocation⟩⟩
          · exact absurd hx List.not_mem_nil
      refine (m.entriesAt_precedes dir).imp_of_mem ?_
      intro a b ha hb hab x hx y hy
      obtain ⟨as, hx⟩ := hinside hx
      obtain ⟨bs, hy⟩ := hinside hy
      exact hab.below (mem_entriesAt_iff.1 ha).1 (mem_entriesAt_iff.1 hb).1
        (hx.imp_right fun h => ⟨h.1, h.2.2⟩) (hy.imp_right And.right)

/-! ## Nothing is missing -/

/-- Says that whatever is in the tree lies in directories. -/
structure Closed (m : Memory) : Prop where
  files : ∀ l, m.files.contains l = true → m.isDirectory l.dropLast = true
  directories : ∀ l l', m.isDirectory l = true → l' <+: l → m.isDirectory l' = true

theorem Change.Makes.of_prefix {c : Change} {l l' : Location} (h : c.Makes l) (hl : l' <+: l) :
    c.Makes l' := by
  cases c with
  | addFile p text =>
    obtain ⟨file, hp, hway⟩ := h
    exact ⟨file, hp, hl.trans hway⟩
  | addDirectory p =>
    obtain ⟨dir, hp, hway⟩ := h
    exact ⟨dir, hp, hl.trans hway⟩
  | removeFile p => exact h

/-- Changes add nothing without the directories on the way to it, and take no directory away. -/
theorem closed_ofChanges (changes : List Change) : (ofChanges changes).Closed := by
  constructor
  · intro l hfile
    obtain ⟨before, c, after, rfl, ⟨p, text, rfl, hp⟩, -⟩ :=
      (contains_files_ofChanges changes l).1 hfile
    rw [isDirectory_ofChanges]
    exact Or.inr ⟨.addFile p text, by simp, l, hp, List.prefix_rfl⟩
  · intro l l' hdir hl
    rw [isDirectory_ofChanges] at hdir ⊢
    rcases hdir with rfl | ⟨c, hc, hmakes⟩
    · exact Or.inl (List.prefix_nil.1 hl)
    · exact Or.inr ⟨c, hc, hmakes.of_prefix hl⟩

/-- The way to a directory has fewer names than the tree has levels. -/
theorem length_lt_levels {l : Location} (h : m.isDirectory l = true) : l.length < m.levels := by
  obtain ⟨hone, hkeys⟩ := levels_le_iff.1 (Nat.le_refl m.levels)
  by_cases hl : l = []
  · rw [hl]
    exact hone
  · have hcontains : m.directories.contains l = true := by simpa [isDirectory, hl] using h
    exact hkeys l (Table.mem_keys_iff.2 hcontains)

/-- What lies in something lies in a directory. -/
theorem Closed.isDirectory_of_stands (h : m.Closed) {e : Entry} (he : m.Stands e) {l names : Location}
    (hlocation : e.location = l ++ names) (hne : names ≠ []) : m.isDirectory l = true := by
  have hway : l <+: e.location.dropLast := by
    rw [hlocation, List.dropLast_append_of_ne_nil hne]
    exact List.prefix_append _ _
  obtain ⟨location, kind⟩ := e
  cases kind with
  | file => exact h.directories _ _ (h.files location he) hway
  | directory => exact h.directories _ _ he (hway.trans (List.dropLast_prefix location))

/-- With enough levels, everything below a directory is found. The induction is on the levels, one of
which is used up by each name on the way. -/
theorem Closed.mem_below_iff (h : m.Closed) {levels : Nat} {dir : Location} {e : Entry}
    (hlevels : m.levels ≤ levels + dir.length) :
    e ∈ m.below levels dir ↔ (∃ names, names ≠ [] ∧ e.location = dir ++ names) ∧ m.Stands e := by
  induction levels generalizing dir with
  | zero =>
    refine iff_of_false List.not_mem_nil ?_
    rintro ⟨⟨names, hne, hlocation⟩, he⟩
    have hdir := length_lt_levels (h.isDirectory_of_stands he hlocation hne)
    omega
  | succ levels ih =>
    have hlonger : ∀ d ∈ m.entriesAt dir, m.levels ≤ levels + d.location.length := by
      intro d hd
      rw [(mem_entriesAt_iff.1 hd).1, List.length_append, List.length_singleton]
      omega
    rw [below, List.mem_flatMap]
    constructor
    · rintro ⟨d, hd, he⟩
      obtain ⟨hlocation, hstands⟩ := mem_entriesAt_iff.1 hd
      rcases List.mem_cons.1 he with rfl | he
      · exact ⟨⟨_, List.cons_ne_nil _ _, hlocation⟩, hstands⟩
      · split at he
        · obtain ⟨⟨names, -, hnames⟩, hstands⟩ := (ih (hlonger d hd)).1 he
          rw [hlocation, List.append_assoc] at hnames
          exact ⟨⟨_, List.cons_ne_nil _ _, hnames⟩, hstands⟩
        · exact absurd he List.not_mem_nil
    · rintro ⟨⟨names, hne, hlocation⟩, hstands⟩
      obtain ⟨name, more, rfl⟩ := List.exists_cons_of_ne_nil hne
      by_cases hmore : more = []
      · refine ⟨e, mem_entriesAt_iff.2 ⟨?_, hstands⟩, List.mem_cons_self⟩
        rw [hmore] at hlocation
        rw [Entry.fileName, hlocation, Location.fileName_append]
      · -- The first name on the way is that of a directory, and the rest is found there.
        have hway : e.location = (dir ++ [name]) ++ more := by simpa using hlocation
        have hfirst : m.isDirectory (dir ++ [name]) = true :=
          h.isDirectory_of_stands hstands hway hmore
        have hd : (⟨dir ++ [name], .directory⟩ : Entry) ∈ m.entriesAt dir := by
          refine mem_entriesAt_iff.2 ⟨?_, hfirst⟩
          rw [Entry.fileName, Location.fileName_append]
        exact ⟨_, hd, List.mem_cons_of_mem _ ((ih (hlonger _ hd)).2 ⟨⟨more, hmore, hway⟩, hstands⟩)⟩

/-- What is not in the directory itself is in one that is found as well, and comes behind it. -/
theorem Closed.parent_mem_below (h : m.Closed) {levels : Nat} {dir : Location} {e : Entry}
    (hlevels : m.levels ≤ levels + dir.length) (he : e ∈ m.below levels dir) :
    e.location.dropLast = dir ∨ ⟨e.location.dropLast, .directory⟩ ∈ m.below levels dir
      ∧ SortKey.before e.location.dropLast e.location = true := by
  obtain ⟨⟨names, hne, hlocation⟩, hstands⟩ := (h.mem_below_iff hlevels).1 he
  have hparent : e.location.dropLast = dir ++ names.dropLast := by
    rw [hlocation, List.dropLast_append_of_ne_nil hne]
  by_cases hchild : names.dropLast = []
  · left
    rw [hparent, hchild, List.append_nil]
  · right
    have hlast : e.location = e.location.dropLast ++ [names.getLast hne] := by
      rw [hparent, List.append_assoc, List.dropLast_concat_getLast, hlocation]
    constructor
    · rw [h.mem_below_iff hlevels]
      exact ⟨⟨_, hchild, hparent⟩, h.isDirectory_of_stands hstands hlast (List.cons_ne_nil _ _)⟩
    · have hbefore := Location.before_append e.location.dropLast
        (List.cons_ne_nil (names.getLast hne) [])
      rwa [← hlast] at hbefore

/-! ## Whole walks -/

/-- **A walk in memory lists everything once, in order.** After any changes, a walk from a directory
succeeds. Of what is strictly below that directory it lists each file that the changes leave once, as
a file, and each location that they made or passed as a directory once, as a directory, even if
nothing is in it any more. What lies in another listed directory comes behind it, and locations never
step back, compared name by name and names by their bytes. -/
theorem walk_ofChanges (changes : List Change) {p : Path} {dir : Location}
    (hp : p.location? = some dir) (hdir : dir = [] ∨ ∃ c ∈ changes, c.Makes dir) :
    ∃ es, (ofChanges changes).walk p = .ok es ∧
      es.Nodup ∧
      (∀ l, ⟨l, .file⟩ ∈ es
        ↔ (∃ names, names ≠ [] ∧ l = dir ++ names) ∧ LeavesFile changes l) ∧
      (∀ l, ⟨l, .directory⟩ ∈ es
        ↔ (∃ names, names ≠ [] ∧ l = dir ++ names) ∧ ∃ c ∈ changes, c.Makes l) ∧
      (∀ front e back, es = front ++ e :: back →
        e.location.dropLast = dir ∨ ⟨e.location.dropLast, .directory⟩ ∈ front) ∧
      es.Pairwise fun a b => a.location.map bytesOf ≤ b.location.map bytesOf := by
  have hclosed := closed_ofChanges changes
  have hsorted := (ofChanges changes).below_precedes (ofChanges changes).levels dir
  have hmem : ∀ e, e ∈ (ofChanges changes).below (ofChanges changes).levels dir
      ↔ (∃ names, names ≠ [] ∧ e.location = dir ++ names) ∧ (ofChanges changes).Stands e :=
    fun e => hclosed.mem_below_iff (Nat.le_add_right _ _)
  refine ⟨(ofChanges changes).below (ofChanges changes).levels dir,
    (named_ofChanges changes).walkBy _ hp ((isDirectory_ofChanges changes dir).2 hdir),
    hsorted.imp Entry.Precedes.ne, ?_, ?_, ?_, hsorted.imp Entry.Precedes.bytes_le⟩
  · intro l
    rw [hmem, ← contains_files_ofChanges]
    rfl
  · intro l
    rw [hmem]
    refine and_congr_right ?_
    rintro ⟨names, hne, hl⟩
    show (ofChanges changes).isDirectory l = true ↔ _
    rw [isDirectory_ofChanges]
    refine or_iff_right fun hnil => ?_
    have hempty : dir ++ names = [] := hl.symm.trans hnil
    exact hne (List.append_eq_nil_iff.1 hempty).2
  · intro front e back hsplit
    rw [hsplit] at hsorted
    have he : e ∈ (ofChanges changes).below (ofChanges changes).levels dir := by
      rw [hsplit]
      exact List.mem_append_right _ List.mem_cons_self
    rcases hclosed.parent_mem_below (Nat.le_add_right _ _) he with hchild | ⟨hparent, hbefore⟩
    · exact Or.inl hchild
    · rw [hsplit] at hparent
      exact Or.inr (Entry.mem_front_of_before hsorted hparent hbefore)

/-- A directory whose only file is removed is still listed, and what it held is not. -/
theorem walk_ofChanges_emptied :
    ∃ es, (ofChanges [.addFile ⟨"a/x"⟩ "", .addFile ⟨"a/b/c"⟩ "", .removeFile ⟨"a/b/c"⟩]).walk ⟨"a"⟩
        = .ok es ∧
      ⟨["a", "x"], .file⟩ ∈ es ∧ ⟨["a", "b"], .directory⟩ ∈ es ∧ ⟨["a", "b", "c"], .file⟩ ∉ es := by
  have hx : (⟨"a/x"⟩ : Path).location? = some ["a", "x"] := by decide +kernel
  have hc : (⟨"a/b/c"⟩ : Path).location? = some ["a", "b", "c"] := by decide +kernel
  obtain ⟨es, hwalk, -, hfiles, hdirectories, -⟩ :=
    @walk_ofChanges [.addFile ⟨"a/x"⟩ "", .addFile ⟨"a/b/c"⟩ "", .removeFile ⟨"a/b/c"⟩]
      ⟨"a"⟩ ["a"] (by decide +kernel)
      (Or.inr ⟨.addFile ⟨"a/x"⟩ "", List.mem_cons_self, ["a", "x"], hx, List.prefix_rfl⟩)
  refine ⟨es, hwalk, ?_, ?_, ?_⟩
  · refine (hfiles _).2 ⟨⟨["x"], by simp, rfl⟩, [], _, _, rfl, ⟨_, _, rfl, hx⟩, ?_⟩
    simp [Change.Removes, hc]
  · refine (hdirectories _).2 ⟨⟨["b"], by simp, rfl⟩, .addFile ⟨"a/b/c"⟩ "", by simp, _, hc, ?_⟩
    exact List.prefix_rfl
  · rw [hfiles, ← contains_files_ofChanges]
    rintro ⟨-, hfile⟩
    exact absurd hfile (by decide +kernel)

end Memory

end Stencil
