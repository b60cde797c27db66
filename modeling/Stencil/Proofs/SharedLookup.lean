/-
What a name finds among the shared templates.

The files of a source are parsed as layouts, first partial, layouts, second partial and so on, and
one source is parsed after the other. Only the last template with content counts, so nearly all of
these runs leave no trace: the last partial of a source has the last word, then its layouts, then
the partials before it; and the last source in which any of them has something to say decides.
-/
import Stencil.Proofs.Listings
import Stencil.Proofs.SharedFiles
import Stencil.Site.PlainGlob

set_option autoImplicit false

namespace Stencil.CommonBase

variable {glob : Glob} {id : SourceId} {source : Source} {ext : String} {functions : FuncTable}

/-! ## Files and sources that give a name content -/

/-- The template with content that a file has for a name. A file defines its own file name and
whatever is defined in it, and the later of two templates with content counts. -/
def content? (functions : FuncTable) (source : Source) (name : String) (p : Path) : Option Tree :=
  Group.lastContent ((fileTrees functions source p).filter fun t => t.name = name)

/-- The template with content that a source has for a name: that of its last partial, or else that
of the last layout with one, or else that of the last partial with one. A source without partials
has none, whatever its layouts say. -/
def definition? (glob : Glob) (functions : FuncTable) (ext : String) (source : Source)
    (name : String) : Option Tree :=
  (partials ext source).getLast?.bind fun last =>
    (content? functions source name last).or
      (((layouts glob ext source).reverse.findSome? (content? functions source name)).or
        ((partials ext source).reverse.findSome? (content? functions source name)))

/-- A source has content for a name exactly if it has partials and one of its files does. -/
theorem definition?_eq_none_iff {name : String} :
    definition? glob functions ext source name = none
      ↔ partials ext source = []
        ∨ ∀ p ∈ layouts glob ext source ++ partials ext source,
          content? functions source name p = none := by
  unfold definition?
  by_cases hnone : partials ext source = []
  · rw [hnone]
    exact ⟨fun _ => Or.inl rfl, fun _ => rfl⟩
  · have hlast := List.getLast?_eq_some_getLast hnone
    rw [hlast, Option.bind_some, Option.or_eq_none_iff, Option.or_eq_none_iff,
      List.findSome?_eq_none_iff, List.findSome?_eq_none_iff]
    simp only [List.mem_reverse]
    constructor
    · rintro ⟨_, hlayouts, hpartials⟩
      exact Or.inr fun p hp => (List.mem_append.1 hp).elim (hlayouts p) (hpartials p)
    · rintro (hempty | hall)
      · exact absurd hempty hnone
      · exact ⟨hall _ (List.mem_append_right _ (List.getLast_mem hnone)),
          fun p hp => hall p (List.mem_append_left _ hp),
          fun p hp => hall p (List.mem_append_right _ hp)⟩

/-- As long as layouts say nothing, it does not matter that they come before every partial. -/
theorem findSome?_reverse_flatMap_append {α β : Type} {f : α → Option β} {before : List α}
    (h : before.reverse.findSome? f = none) (as : List α) :
    (as.flatMap fun a => before ++ [a]).reverse.findSome? f = as.reverse.findSome? f := by
  induction as with
  | nil => rfl
  | cons a rest ih =>
    rw [List.flatMap_cons, List.reverse_append, List.findSome?_append, ih, List.reverse_append,
      List.reverse_singleton, List.singleton_append, List.findSome?_cons, h, List.reverse_cons,
      List.findSome?_append, List.findSome?_singleton]
    cases f a <;> rfl

/-- The runs over the layouts before the last one decide nothing: if they had something to say, the
last run says it again. -/
theorem findSome?_parseOrder {α β : Type} (f : α → Option β) (before front : List α) (last : α) :
    ((front ++ [last]).flatMap fun a => before ++ [a]).reverse.findSome? f
      = (f last).or ((before.reverse.findSome? f).or ((front ++ [last]).reverse.findSome? f)) := by
  have hruns : ((front ++ [last]).flatMap fun a => before ++ [a]).reverse.findSome? f
      = ((f last).or (before.reverse.findSome? f)).or
          ((front.flatMap fun a => before ++ [a]).reverse.findSome? f) := by
    rw [List.flatMap_append, List.flatMap_singleton, List.reverse_append, List.findSome?_append,
      List.reverse_append, List.findSome?_append, List.reverse_singleton, List.findSome?_singleton]
  have hpartials : (front ++ [last]).reverse.findSome? f
      = (f last).or (front.reverse.findSome? f) := by
    rw [List.reverse_append, List.findSome?_append, List.reverse_singleton,
      List.findSome?_singleton]
  rw [hruns, hpartials]
  cases hlast : f last with
  | some b => rfl
  | none =>
    cases hbefore : before.reverse.findSome? f with
    | some b => rfl
    | none => rw [findSome?_reverse_flatMap_append hbefore]; rfl

/-- The templates of a source have the content that the source has for the name. -/
theorem lastContent_sourceTrees (name : String) :
    Group.lastContent ((sourceTrees glob functions ext source).filter fun t => t.name = name)
      = definition? glob functions ext source name := by
  unfold sourceTrees
  rw [List.filter_flatMap, Group.lastContent_flatMap]
  show (parseOrder glob ext source).reverse.findSome? (content? functions source name) = _
  unfold parseOrder definition?
  by_cases hnone : partials ext source = []
  · rw [hnone]
    rfl
  · rw [← List.dropLast_concat_getLast hnone, findSome?_parseOrder, List.getLast?_concat,
      Option.bind_some]

/-! ## All sources -/

theorem lastContent_allTrees {sources : Sources} (name : String) :
    Group.lastContent ((allTrees glob functions ext sources).filter fun t => t.name = name)
      = sources.entries.reverse.findSome? fun e => definition? glob functions ext e.2 name := by
  unfold allTrees
  rw [List.filter_flatMap, Group.lastContent_flatMap]
  congr 1
  funext e
  exact lastContent_sourceTrees name

theorem mem_allTrees_iff {sources : Sources} {t : Tree} :
    t ∈ allTrees glob functions ext sources
      ↔ ∃ id source, sources.get? id = some source ∧ partials ext source ≠ []
        ∧ ∃ p ∈ layouts glob ext source ++ partials ext source, t ∈ fileTrees functions source p := by
  unfold allTrees sourceTrees
  rw [List.mem_flatMap]
  constructor
  · rintro ⟨⟨id, source⟩, he, ht⟩
    obtain ⟨p, hp, htree⟩ := List.mem_flatMap.1 ht
    obtain ⟨hne, hfile⟩ := mem_parseOrder_iff.1 hp
    exact ⟨id, source, Table.get?_of_mem he, hne, p, hfile, htree⟩
  · rintro ⟨id, source, hget, hne, p, hfile, htree⟩
    exact ⟨(id, source), Entries.mem_keys_of_get? hget,
      List.mem_flatMap.2 ⟨p, mem_parseOrder_iff.2 ⟨hne, hfile⟩, htree⟩⟩

/-- What the last entries of a table say is what its greatest keys say. -/
theorem exists_greatest_of_findSome? {κ α β : Type} [SortKey κ] [DecidableEq κ] {t : Table κ α}
    {f : α → Option β} {b : β} (h : (t.entries.reverse.findSome? fun e => f e.2) = some b) :
    ∃ k a, t.get? k = some a ∧ f a = some b
      ∧ ∀ k' a', t.get? k' = some a' → SortKey.before k k' = true → f a' = none := by
  obtain ⟨later, ⟨k, a⟩, earlier, hsplit, hfound, hnone⟩ := List.findSome?_eq_some_iff.1 h
  have hentries : t.entries = earlier.reverse ++ (k, a) :: later.reverse := by
    have hback := congrArg List.reverse hsplit
    rw [List.reverse_reverse, List.reverse_append, List.reverse_cons, List.append_assoc] at hback
    exact hback
  refine ⟨k, a, Table.get?_of_mem ?_, hfound, ?_⟩
  · rw [hentries]
    exact List.mem_append_right _ List.mem_cons_self
  · intro k' a' hget hbefore
    have hmem : (k', a') ∈ t.entries := Entries.mem_keys_of_get? hget
    have hsorted := t.sorted
    rw [hentries] at hmem hsorted
    have hlater : (k', a') ∈ later.reverse :=
      SortKey.mem_back_of_before Prod.fst hsorted hmem hbefore
    exact hnone (k', a') (List.mem_reverse.1 hlater)

theorem layoutEntries_sorted (h : source.ListsByName) :
    (layoutEntries glob ext source).Pairwise fun a b =>
      SortKey.before a.fileName b.fileName = true := by
  unfold layoutEntries
  by_cases hmeta : source.metadata layoutsDir = .ok .directory
  · cases hlist : source.list layoutsDir with
    | ok entries =>
      have hfiles := List.pairwise_filter.1 (h layoutsDir entries hlist)
      rw [entriesOf_of_directory hmeta hlist, List.pairwise_filter]
      refine hfiles.imp ?_
      intro a b hab ha hb
      -- Every layout is a file.
      exact hab (Bool.and_eq_true_iff.1 ha).1 (Bool.and_eq_true_iff.1 hb).1
    | error e =>
      have hnone : entriesOf source layoutsDir source.list = [] := by
        unfold entriesOf
        rw [hmeta, hlist]
      rw [hnone]
      exact List.Pairwise.nil
  · rw [entriesOf_of_not_directory hmeta]
    exact List.Pairwise.nil

/-- A name finds something exactly if some file of a source with partials defines it. -/
theorem isSome_tree?_of_build_iff {sources : Sources} {base : Group}
    (h : (build glob sources functions ext).result = .ok base) (name : String) :
    (base.tree? name).isSome = true ↔
      ∃ id source, sources.get? id = some source ∧ partials ext source ≠ []
        ∧ ∃ p ∈ layouts glob ext source ++ partials ext source,
            ∃ t ∈ fileTrees functions source p, t.name = name := by
  rw [tree?_of_build h, Option.isSome_iff_ne_none, Ne, Group.lastWord_eq_none_iff]
  constructor
  · intro hsome
    obtain ⟨t, ht⟩ := List.exists_mem_of_ne_nil _ hsome
    obtain ⟨hadded, hname⟩ := List.mem_filter.1 ht
    obtain ⟨id, source, hget, hne, p, hp, htree⟩ := mem_allTrees_iff.1 hadded
    exact ⟨id, source, hget, hne, p, hp, t, htree, by simpa using hname⟩
  · rintro ⟨id, source, hget, hne, p, hp, t, htree, hname⟩
    have hadded : t ∈ allTrees glob functions ext sources :=
      mem_allTrees_iff.2 ⟨id, source, hget, hne, p, hp, htree⟩
    exact List.ne_nil_of_mem (List.mem_filter.2 ⟨hadded, by simpa using hname⟩)

/-- **Who has the last word.** The greatest source that has content for a name decides what the name
finds. If there is none, the name finds a template exactly if some file of a source with partials
defines it, and that template is empty. In sources that list by name, the last of several layouts is
the one with the greatest name. -/
theorem tree?_of_build_cases {sources : Sources} {base : Group}
    (h : (build glob sources functions ext).result = .ok base) (name : String) :
    ((∃ id source t, sources.get? id = some source
          ∧ definition? glob functions ext source name = some t
          ∧ (∀ later source', sources.get? later = some source' → SortKey.before id later = true →
              definition? glob functions ext source' name = none)
          ∧ base.tree? name = some t)
        ∨ ((∀ id source, sources.get? id = some source →
              definition? glob functions ext source name = none)
          ∧ ((base.tree? name).isSome = true ↔
              ∃ id source, sources.get? id = some source ∧ partials ext source ≠ []
                ∧ ∃ p ∈ layouts glob ext source ++ partials ext source,
                    ∃ t ∈ fileTrees functions source p, t.name = name)
          ∧ ∀ t, base.tree? name = some t → t.isEmpty = true))
      ∧ ∀ id source, sources.get? id = some source → source.ListsByName →
          (layoutEntries glob ext source).Pairwise fun a b =>
            SortKey.before a.fileName b.fileName = true := by
  refine ⟨?_, fun _ _ _ hlists => layoutEntries_sorted hlists⟩
  have hfinds := tree?_of_build h name
  have hcontent : Group.lastContent
      ((allTrees glob functions ext sources).filter fun t => t.name = name)
      = sources.entries.reverse.findSome? fun e => definition? glob functions ext e.2 name :=
    lastContent_allTrees name
  -- The first source with content from the end is the greatest one.
  cases hdecides : sources.entries.reverse.findSome? fun e =>
      definition? glob functions ext e.2 name with
  | some t =>
    rw [hdecides] at hcontent
    rw [Group.lastWord_of_content hcontent] at hfinds
    obtain ⟨id, source, hget, hdefinition, hlater⟩ :=
      exists_greatest_of_findSome? (f := fun source => definition? glob functions ext source name)
        hdecides
    exact Or.inl ⟨id, source, t, hget, hdefinition, hlater, hfinds⟩
  | none =>
    rw [hdecides] at hcontent
    refine Or.inr ⟨?_, isSome_tree?_of_build_iff h name, ?_⟩
    · intro id source hget
      have hmem : (id, source) ∈ sources.entries.reverse :=
        List.mem_reverse.2 (Entries.mem_keys_of_get? hget)
      exact List.findSome?_eq_none_iff.1 hdecides (id, source) hmem
    · intro t ht
      rw [hfinds, Group.lastWord_of_blank hcontent] at ht
      exact Group.lastContent_eq_none_iff.1 hcontent t (List.mem_of_getLast? ht)

/-- A source with the given layouts and partials, by name, and nothing else. -/
def sharing (layouts partials : List (String × String)) : Source where
  metadata p := if p = layoutsDir ∨ p = partialsDir then .ok .directory else .error (.notFound p)
  list _ := .ok (layouts.map fun f => ⟨["layouts", f.1], .file⟩)
  read p :=
    let texts := layouts.map (fun f => (Location.path ["layouts", f.1], f.2))
      ++ partials.map fun f => (Location.path ["partials", f.1], f.2)
    match texts.find? fun f => f.1 = p with
    | some f => .ok f.2
    | none => .error (.notFound p)
  walk _ := .ok (partials.map fun f => ⟨["partials", f.1], .file⟩)
  reportsWalks := false

/-- The definition of a title. -/
def titleOf (text : String) : String :=
  "\x7b\x7bdefine `title`\x7d\x7d" ++ text ++ "\x7b\x7bend\x7d\x7d"

/-- A source that defines a title in a layout and in the first of two partials. -/
def titledSource : Source :=
  sharing [("page.html", titleOf "Site")] [("a.html", titleOf "Draft"), ("b.html", "b")]

/-- The same and a later source that defines the title in a layout but has no partials. -/
def titledSources : Sources :=
  Table.ofList [
    (.root, titledSource),
    (.named "blog", sharing [("page.html", titleOf "Blog")] [])]

/-- The layout of the source with partials has the last word. -/
theorem tree?_of_build_titledSources :
    ∃ base t, (build .plain titledSources Table.empty ".html").result = .ok base
      ∧ definition? .plain Table.empty ".html" titledSource "title" = some t
      ∧ base.tree? "title" = some t := by
  have hok : (build .plain titledSources Table.empty ".html").result.isOk = true := by decide +kernel
  have hids : titledSources.keys = [.root, .named "blog"] := by decide +kernel
  have hroot : (definition? .plain Table.empty ".html" titledSource "title").isSome = true := by
    decide +kernel
  cases hbase : (build .plain titledSources Table.empty ".html").result with
  | error e =>
    rw [hbase] at hok
    exact absurd hok (by simp [Except.isOk, Except.toBool])
  | ok base =>
    obtain ⟨t, ht⟩ := Option.isSome_iff_exists.1 hroot
    refine ⟨base, t, rfl, ht, ?_⟩
    rcases (tree?_of_build_cases hbase "title").1 with
      ⟨id, source, u, hget, hdefinition, _, hfinds⟩ | ⟨hnone, _⟩
    · have hid : id ∈ titledSources.keys := Table.mem_keys_iff.2 (by rw [hget]; rfl)
      rw [hids] at hid
      rcases List.mem_cons.1 hid with rfl | hid
      · cases hget
        rw [hfinds, ← hdefinition, ht]
      · rw [List.mem_singleton.1 hid] at hget
        -- Without partials, the layouts of the later source do not count.
        cases hget
        exact absurd hdefinition (by simp [definition?, partials, entriesOf, sharing])
    · exact absurd (ht.symm.trans (hnone .root _ rfl)) (by simp)

end Stencil.CommonBase
