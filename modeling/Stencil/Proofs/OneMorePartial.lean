/-
One more partial.

A source gets another partial, somewhere in the order of its walk. The names that the new file does
not define find what they found before, because the layouts that are parsed again before it say only
what they have just said. There is one exception: behind the last partial the layouts have not just
spoken, so there they get another word, and a definition of that partial may give way to theirs.
-/
import Stencil.Proofs.SharedLookup

set_option autoImplicit false

namespace Stencil

/-! ## Templates that are added again -/

namespace Group

/-- Templates that come a second time at once change nothing, whatever comes behind them. -/
theorem lastWord_append_twice_append (ts us vs : List Tree) :
    lastWord (ts ++ us ++ us ++ vs) = lastWord (ts ++ us ++ vs) := by
  rw [← foldl_settle_lastWord, lastWord_append_twice, foldl_settle_lastWord]

/-- A choice `u` that is made again ahead of `v` changes nothing, unless both are there and nothing
stands ahead of them. -/
theorem or_again {α : Type} (w u v x : Option α) :
    w.or (u.or (v.or (u.or x))) = w.or (v.or (u.or x))
      ∨ ∃ b c, v = some b ∧ u = some c ∧ w.or (v.or (u.or x)) = some b
        ∧ w.or (u.or (v.or (u.or x))) = some c := by
  cases w with
  | some a => exact Or.inl rfl
  | none => cases u <;> cases v <;> simp

/-- Templates `us` that come again behind others may only take the place of one of these, content of
content and a blank template of a blank one. -/
theorem lastWord_append_again (ts us vs ws : List Tree) :
    lastWord (ts ++ us ++ vs ++ us ++ ws) = lastWord (ts ++ us ++ vs ++ ws)
      ∨ ∃ t u, lastWord vs = some t ∧ lastWord us = some u
        ∧ lastWord (ts ++ us ++ vs ++ ws) = some t
        ∧ lastWord (ts ++ us ++ vs ++ us ++ ws) = some u
        ∧ t.isEmpty = u.isEmpty := by
  have hcontents : lastContent (ts ++ us ++ vs ++ us ++ ws) = lastContent (ts ++ us ++ vs ++ ws)
      ∨ ∃ t u, lastContent vs = some t ∧ lastContent us = some u
        ∧ lastContent (ts ++ us ++ vs ++ ws) = some t
        ∧ lastContent (ts ++ us ++ vs ++ us ++ ws) = some u := by
    simpa only [lastContent_append] using
      or_again (lastContent ws) (lastContent us) (lastContent vs) (lastContent ts)
  have hlasts : (ts ++ us ++ vs ++ us ++ ws).getLast? = (ts ++ us ++ vs ++ ws).getLast?
      ∨ ∃ t u, vs.getLast? = some t ∧ us.getLast? = some u
        ∧ (ts ++ us ++ vs ++ ws).getLast? = some t
        ∧ (ts ++ us ++ vs ++ us ++ ws).getLast? = some u := by
    simpa only [List.getLast?_append] using
      or_again ws.getLast? us.getLast? vs.getLast? ts.getLast?
  -- Where there is content, it decides; blank templates decide in the same way where there is none.
  rcases hcontents with hsame | ⟨t, u, hvs, hus, hbefore, hafter⟩
  · cases hbefore : lastContent (ts ++ us ++ vs ++ ws) with
    | some c =>
      rw [hbefore] at hsame
      exact Or.inl (by rw [lastWord_of_content hbefore, lastWord_of_content hsame])
    | none =>
      rw [hbefore] at hsame
      have hblank := lastContent_eq_none_iff.1 hbefore
      have hvs : lastContent vs = none := lastContent_eq_none_iff.2 fun t ht => hblank t (by simp [ht])
      have hus : lastContent us = none := lastContent_eq_none_iff.2 fun t ht => hblank t (by simp [ht])
      rw [lastWord_of_blank hbefore, lastWord_of_blank hsame, lastWord_of_blank hus,
        lastWord_of_blank hvs]
      rcases hlasts with hlast | ⟨t, u, ht, hu, hthen, hnow⟩
      · exact Or.inl hlast
      · refine Or.inr ⟨t, u, ht, hu, hthen, hnow, ?_⟩
        rw [lastContent_eq_none_iff.1 hvs t (List.mem_of_getLast? ht),
          lastContent_eq_none_iff.1 hus u (List.mem_of_getLast? hu)]
  · refine Or.inr ⟨t, u, lastWord_of_content hvs, lastWord_of_content hus,
      lastWord_of_content hbefore, lastWord_of_content hafter, ?_⟩
    rw [isEmpty_of_lastContent hvs, isEmpty_of_lastContent hus]

end Group

/-! ## Replacing a source -/

/-- Setting the value of a key that has one changes the table in one place. -/
theorem Table.entries_insert_of_get? {κ α : Type} [SortKey κ] [DecidableEq κ] {t : Table κ α} {k : κ}
    {v : α} (h : t.get? k = some v) (w : α) :
    ∃ before after, t.entries = before ++ (k, v) :: after
      ∧ (t.insert k w).entries = before ++ (k, w) :: after := by
  obtain ⟨entries, hsorted⟩ := t
  show ∃ before after, entries = before ++ (k, v) :: after
    ∧ Entries.insert k w entries = before ++ (k, w) :: after
  have hget : Entries.get? k entries = some v := h
  induction entries with
  | nil => exact absurd hget (by simp [Entries.get?])
  | cons e rest ih =>
    obtain ⟨k₀, v₀⟩ := e
    by_cases hk : k = k₀
    · rw [Entries.get?, if_pos hk] at hget
      refine ⟨[], rest, ?_, ?_⟩
      · rw [hk, Option.some.inj hget]
        rfl
      · rw [Entries.insert, if_pos hk]
        rfl
    · rw [Entries.get?, if_neg hk] at hget
      have hrest : Entries.Sorted rest := (List.pairwise_cons.1 hsorted).2
      have hafter : SortKey.before k₀ k = true :=
        (List.pairwise_cons.1 hsorted).1 (k, v) (Entries.mem_keys_of_get? hget)
      obtain ⟨before, after, hsplit, hinserted⟩ := ih hrest hget hget
      refine ⟨(k₀, v₀) :: before, after, by rw [hsplit]; rfl, ?_⟩
      rw [Entries.insert, if_neg hk, if_neg (by rw [SortKey.asymm hafter]; decide), hinserted]
      rfl

namespace CommonBase

open Stencil.Runs

variable {glob : Glob} {id : SourceId} {source source' : Source} {ext : String} {functions : FuncTable}
  {l : Location} {front back : List Path}

/-- Says that `source'` is `source` with one more partial, at `l`. Its directories are the same but
for new ones on the way to `l`, and the files that were parsed so far say what they said. In the
order of the walk, the partials in `front` come before the new one and those in `back` behind it. -/
structure OneMorePartial (glob : Glob) (ext : String) (source source' : Source) (l : Location)
    (front back : List Path) : Prop where
  extension : Extension.endsPath ext l.path = true
  kind : ∀ dir ∈ [partialsDir, layoutsDir], source'.metadata dir = source.metadata dir
  list : source'.list layoutsDir = source.list layoutsDir
  walk : ∃ earlier new later, source.walk partialsDir = .ok (earlier ++ later)
    ∧ source'.walk partialsDir = .ok (earlier ++ new ++ ⟨l, .file⟩ :: later)
    ∧ (∀ e ∈ new, e.kind = .directory)
    ∧ front = (earlier.filter (isPartial ext)).map Entry.path
    ∧ back = (later.filter (isPartial ext)).map Entry.path
  read : ∀ p ∈ layouts glob ext source ++ partials ext source, source'.read p = source.read p

namespace OneMorePartial

theorem layouts_eq (h : OneMorePartial glob ext source source' l front back) :
    layouts glob ext source' = layouts glob ext source := by
  unfold layouts layoutEntries entriesOf
  rw [h.kind layoutsDir (by simp), h.list]

theorem partials_eq (h : OneMorePartial glob ext source source' l front back)
    (hmeta : source.metadata partialsDir = .ok .directory) :
    partials ext source = front ++ back ∧ partials ext source' = front ++ l.path :: back := by
  obtain ⟨earlier, new, later, hwalk, hwalk', hnew, hfront, hback⟩ := h.walk
  have hmeta' : source'.metadata partialsDir = .ok .directory :=
    (h.kind partialsDir (by simp)).trans hmeta
  have hdirs : new.filter (isPartial ext) = [] := by
    rw [List.filter_eq_nil_iff]
    intro e he
    simp [isPartial, hnew e he]
  have hfile : isPartial ext ⟨l, .file⟩ = true := by
    simp [isPartial, Entry.path, h.extension]
  constructor
  · rw [partials_of_walk hmeta hwalk, List.filter_append, List.map_append, hfront, hback]
  · rw [partials_of_walk hmeta' hwalk', List.filter_append, List.filter_append, hdirs,
      List.append_nil, List.filter_cons_of_pos hfile, List.map_append, List.map_cons, hfront, hback]
    rfl

theorem fileTrees_eq (h : OneMorePartial glob ext source source' l front back) {p : Path}
    (hp : p ∈ layouts glob ext source ++ partials ext source) :
    fileTrees functions source' p = fileTrees functions source p := by
  unfold fileTrees Group.parsedFile?
  rw [h.read p hp]

theorem accessible (h : OneMorePartial glob ext source source' l front back)
    (haccess : Accessible source) : Accessible source' := by
  have hpartials := h.kind partialsDir (by simp)
  have hlayouts := h.kind layoutsDir (by simp)
  obtain ⟨_, _, _, _, hwalk', _⟩ := h.walk
  refine ⟨?_, fun _ => ⟨_, hwalk'⟩, ?_, ?_⟩
  · intro e he
    exact haccess.partials e (hpartials.symm.trans he)
  · intro hdir e he
    exact haccess.layouts (hpartials.symm.trans hdir) e (hlayouts.symm.trans he)
  · intro hdir hdir'
    rw [h.list]
    exact haccess.list (hpartials.symm.trans hdir) (hlayouts.symm.trans hdir')

/-- The new partial can be loaded along with the other files. -/
theorem loads (h : OneMorePartial glob ext source source' l front back)
    (hmeta : source.metadata partialsDir = .ok .directory) (hne : partials ext source ≠ [])
    (hparsed : (Group.parsedFile? functions source' l.path).isSome = true)
    (hloads : Loads glob functions ext source) : Loads glob functions ext source' := by
  obtain ⟨hold, hnew⟩ := h.partials_eq hmeta
  refine ⟨h.accessible hloads.1, fun p hp => ?_⟩
  obtain ⟨_, hmem⟩ := mem_parseOrder_iff.1 hp
  by_cases hl : p = l.path
  · rw [hl]
    exact hparsed
  · have hfile : p ∈ layouts glob ext source ++ partials ext source := by
      rw [h.layouts_eq, hnew, List.mem_append, List.mem_append, List.mem_cons] at hmem
      rw [hold, List.mem_append, List.mem_append]
      rcases hmem with hlayout | hfront | hnewest | hback
      · exact Or.inl hlayout
      · exact Or.inr (Or.inl hfront)
      · exact absurd hnewest hl
      · exact Or.inr (Or.inr hback)
    have hparses := hloads.2 p (mem_parseOrder_iff.2 ⟨hne, hfile⟩)
    unfold Group.parsedFile? at hparses ⊢
    rwa [h.read p hfile]

end OneMorePartial

/-! ## What names find -/

/-- The templates of one name in some files of a source. -/
def treesOf (functions : FuncTable) (source : Source) (name : String) (files : List Path) : List Tree :=
  (files.flatMap (fileTrees functions source)).filter fun t => t.name = name

theorem treesOf_append (name : String) (as bs : List Path) :
    treesOf functions source name (as ++ bs)
      = treesOf functions source name as ++ treesOf functions source name bs := by
  unfold treesOf
  rw [List.flatMap_append, List.filter_append]

theorem treesOf_congr {name : String} {files : List Path}
    (h : ∀ p ∈ files, fileTrees functions source' p = fileTrees functions source p) :
    treesOf functions source' name files = treesOf functions source name files := by
  unfold treesOf
  rw [List.flatMap_def, List.flatMap_def, List.map_congr_left h]

/-- A file has no templates of names that it does not define. -/
theorem treesOf_of_not_mem {name : String} {p : Path} {parsed : ParsedSource}
    (h : Group.parsedFile? functions source p = some parsed)
    (hname : name ∉ parsed.trees.map Tree.name) : treesOf functions source name [p] = [] := by
  unfold treesOf fileTrees
  rw [List.flatMap_singleton, h, Option.map_some, Option.getD_some, List.filter_eq_nil_iff]
  intro t ht htname
  exact hname (List.mem_map.2 ⟨t, ht, by simpa using htname⟩)

/-- With one more partial, the layouts come once more for the other names, and nothing else does. -/
theorem OneMorePartial.treesOf_parseOrder (h : OneMorePartial glob ext source source' l front back)
    (hmeta : source.metadata partialsDir = .ok .directory) {parsed : ParsedSource}
    (hparsed : Group.parsedFile? functions source' l.path = some parsed) {name : String}
    (hname : name ∉ parsed.trees.map Tree.name) :
    treesOf functions source' name (parseOrder glob ext source')
      = treesOf functions source name (front.flatMap fun p => layouts glob ext source ++ [p])
        ++ treesOf functions source name (layouts glob ext source)
        ++ treesOf functions source name (back.flatMap fun p => layouts glob ext source ++ [p]) := by
  obtain ⟨hold, hnew⟩ := h.partials_eq hmeta
  have hfiles : ∀ {ps : List Path}, (∀ p ∈ ps, p ∈ partials ext source) →
      treesOf functions source' name (ps.flatMap fun p => layouts glob ext source ++ [p])
        = treesOf functions source name (ps.flatMap fun p => layouts glob ext source ++ [p]) := by
    intro ps hps
    refine treesOf_congr fun q hq => h.fileTrees_eq ?_
    obtain ⟨p, hp, hq⟩ := List.mem_flatMap.1 hq
    rcases List.mem_append.1 hq with hlayout | hpartial
    · exact List.mem_append_left _ hlayout
    · rw [List.mem_singleton.1 hpartial]
      exact List.mem_append_right _ (hps p hp)
  have hlayouts : treesOf functions source' name (layouts glob ext source)
      = treesOf functions source name (layouts glob ext source) :=
    treesOf_congr fun q hq => h.fileTrees_eq (List.mem_append_left _ hq)
  have hfront := hfiles fun p hp => hold ▸ List.mem_append_left back hp
  have hback := hfiles fun p hp => hold ▸ List.mem_append_right front hp
  rw [parseOrder, h.layouts_eq, hnew, List.flatMap_append, List.flatMap_cons, treesOf_append,
    treesOf_append, treesOf_append, treesOf_of_not_mem hparsed hname, List.append_nil, hfront,
    hlayouts, hback, List.append_assoc]

/-- Between the templates `es` and `ls` of other sources, one more partial leaves the word to whoever
had it, unless it comes last and both the last partial so far and the layouts define the name. -/
theorem OneMorePartial.lastWord_cases (h : OneMorePartial glob ext source source' l front back)
    (hmeta : source.metadata partialsDir = .ok .directory) (hne : partials ext source ≠ [])
    {parsed : ParsedSource} (hparsed : Group.parsedFile? functions source' l.path = some parsed)
    {name : String} (hname : name ∉ parsed.trees.map Tree.name) (es ls : List Tree) :
    Group.lastWord (es ++ treesOf functions source' name (parseOrder glob ext source') ++ ls)
        = Group.lastWord (es ++ treesOf functions source name (parseOrder glob ext source) ++ ls)
      ∨ back = [] ∧ ∃ last t u, front.getLast? = some last
        ∧ Group.lastWord (treesOf functions source name [last]) = some t
        ∧ Group.lastWord (treesOf functions source name (layouts glob ext source)) = some u
        ∧ Group.lastWord (es ++ treesOf functions source name (parseOrder glob ext source) ++ ls)
          = some t
        ∧ Group.lastWord (es ++ treesOf functions source' name (parseOrder glob ext source') ++ ls)
          = some u
        ∧ t.isEmpty = u.isEmpty := by
  obtain ⟨hold, _⟩ := h.partials_eq hmeta
  rw [h.treesOf_parseOrder hmeta hparsed hname, parseOrder, hold, List.flatMap_append, treesOf_append]
  cases back with
  | cons next rest =>
    -- Behind the new file the layouts come once more anyway.
    rw [List.flatMap_cons, treesOf_append, treesOf_append]
    have hagain := Group.lastWord_append_twice_append
      (es ++ treesOf functions source name (front.flatMap fun p => layouts glob ext source ++ [p]))
      (treesOf functions source name (layouts glob ext source))
      (treesOf functions source name [next]
        ++ treesOf functions source name (rest.flatMap fun p => layouts glob ext source ++ [p]) ++ ls)
    exact Or.inl (by simpa only [List.append_assoc] using hagain)
  | nil =>
    -- The last partial so far stood behind the layouts, and now they come once more behind it.
    rw [List.append_nil] at hold
    have hfront : front ≠ [] := hold ▸ hne
    rw [← List.dropLast_concat_getLast hfront, List.getLast?_concat, List.flatMap_append,
      List.flatMap_singleton, treesOf_append, treesOf_append]
    have hagain := Group.lastWord_append_again
      (es ++ treesOf functions source name
        (front.dropLast.flatMap fun p => layouts glob ext source ++ [p]))
      (treesOf functions source name (layouts glob ext source))
      (treesOf functions source name [front.getLast hfront]) ls
    have hnil : treesOf functions source name [] = [] := rfl
    simp only [List.flatMap_nil, hnil, List.append_nil, ← List.append_assoc]
    rcases hagain with hsame | ⟨t, u, hpartial, hlayouts, hthen, hnow, hempty⟩
    · exact Or.inl hsame
    · exact Or.inr ⟨trivial, _, t, u, rfl, hpartial, hlayouts, hthen, hnow, hempty⟩

/-- The templates of one name in some sources. -/
def treesOfAll (glob : Glob) (functions : FuncTable) (ext name : String)
    (entries : List (SourceId × Source)) : List Tree :=
  (entries.flatMap fun e => sourceTrees glob functions ext e.2).filter fun t => t.name = name

/-- What a name finds, as seen from one source. -/
theorem tree?_of_build_around {sources : Sources} {base : Group}
    (h : (build glob sources functions ext).result = .ok base) {before after : List (SourceId × Source)}
    (hentries : sources.entries = before ++ (id, source) :: after) (name : String) :
    base.tree? name = Group.lastWord (treesOfAll glob functions ext name before
      ++ treesOf functions source name (parseOrder glob ext source)
      ++ treesOfAll glob functions ext name after) := by
  rw [tree?_of_build h, allTrees, hentries, List.flatMap_append, List.flatMap_cons,
    List.filter_append, List.filter_append, List.append_assoc]
  rfl

/-- With one more partial, the shared templates can still be built. -/
theorem OneMorePartial.exists_build (h : OneMorePartial glob ext source source' l front back)
    (hmeta : source.metadata partialsDir = .ok .directory) (hne : partials ext source ≠ [])
    (hparsed : (Group.parsedFile? functions source' l.path).isSome = true) {sources : Sources}
    {base : Group} (hbase : (build glob sources functions ext).result = .ok base)
    (hsource : sources.get? id = some source) :
    ∃ base', (build glob (sources.insert id source') functions ext).result = .ok base' := by
  obtain ⟨hloads, _⟩ := build_eq_ok_iff.1 hbase
  refine ⟨_, build_eq_ok_iff.2 ⟨fun e he => ?_, rfl⟩⟩
  have hget : (sources.insert id source').get? e.1 = some e.2 := Table.get?_of_mem he
  rw [Table.get?_insert] at hget
  split at hget
  · rw [← Option.some.inj hget]
    exact h.loads hmeta hne hparsed (hloads (id, source) (Entries.mem_keys_of_get? hsource))
  · exact hloads e (Entries.mem_keys_of_get? hget)

/-- **One more partial.** The shared templates can still be built, and every name that the new file
does not define finds what it found before. Only if the new file comes last of its source, a name
that both the last partial so far and the layouts of the source define may pass from that partial to
the layouts. -/
theorem build_insert_oneMorePartial {sources : Sources} {base : Group}
    (hbase : (build glob sources functions ext).result = .ok base)
    (hsource : sources.get? id = some source) (hne : partials ext source ≠ [])
    (h : OneMorePartial glob ext source source' l front back) {parsed : ParsedSource}
    (hparsed : Group.parsedFile? functions source' l.path = some parsed) :
    ∃ base', (build glob (sources.insert id source') functions ext).result = .ok base'
      ∧ ∀ name, name ∉ parsed.trees.map Tree.name →
        base'.tree? name = base.tree? name
          ∨ back = [] ∧ ∃ last t u, front.getLast? = some last
            ∧ Group.lastWord (treesOf functions source name [last]) = some t
            ∧ Group.lastWord (treesOf functions source name (layouts glob ext source)) = some u
            ∧ base.tree? name = some t ∧ base'.tree? name = some u ∧ t.isEmpty = u.isEmpty := by
  have hmeta : source.metadata partialsDir = .ok .directory :=
    Classical.byContradiction fun hno => hne (partials_of_not_directory hno)
  obtain ⟨base', hbase'⟩ := h.exists_build hmeta hne (by rw [hparsed]; rfl) hbase hsource
  obtain ⟨before, after, hentries, hinserted⟩ := Table.entries_insert_of_get? hsource source'
  refine ⟨base', hbase', fun name hname => ?_⟩
  rw [tree?_of_build_around hbase hentries, tree?_of_build_around hbase' hinserted]
  exact h.lastWord_cases hmeta hne hparsed hname _ _

/-- A source whose layout and partial both define the title. -/
def oneTitle : Source := sharing [("base.html", titleOf "layout")] [("b.html", titleOf "partial")]

/-- The same source with another partial in front of that one. -/
def oneTitleAhead : Source :=
  sharing [("base.html", titleOf "layout")] [("a.html", "a"), ("b.html", titleOf "partial")]

/-- The same source with another partial behind that one. -/
def oneTitleBehind : Source :=
  sharing [("base.html", titleOf "layout")] [("b.html", titleOf "partial"), ("c.html", "c")]

theorem forall_files_oneTitle {P : Path → Prop} (hlayout : P ⟨"layouts/base.html"⟩)
    (hpartial : P ⟨"partials/b.html"⟩) :
    ∀ p ∈ layouts .plain ".html" oneTitle ++ partials ".html" oneTitle, P p := by
  have hfiles : layouts .plain ".html" oneTitle ++ partials ".html" oneTitle
      = [⟨"layouts/base.html"⟩, ⟨"partials/b.html"⟩] := by decide +kernel
  rw [hfiles]
  simp [hlayout, hpartial]

theorem oneMorePartial_ahead :
    OneMorePartial .plain ".html" oneTitle oneTitleAhead ["partials", "a.html"] []
      [⟨"partials/b.html"⟩] where
  extension := by decide +kernel
  kind _ _ := rfl
  list := rfl
  walk := ⟨[], [], [⟨["partials", "b.html"], .file⟩], rfl, rfl, by simp, rfl, by decide +kernel⟩
  read := forall_files_oneTitle rfl rfl

theorem oneMorePartial_behind :
    OneMorePartial .plain ".html" oneTitle oneTitleBehind ["partials", "c.html"]
      [⟨"partials/b.html"⟩] [] where
  extension := by decide +kernel
  kind _ _ := rfl
  list := rfl
  walk := ⟨[⟨["partials", "b.html"], .file⟩], [], [], rfl, rfl, by simp, by decide +kernel, rfl⟩
  read := forall_files_oneTitle rfl rfl

/-- A partial in front of the last one changes nothing, although the layout defines the title. -/
theorem build_insert_oneTitleAhead :
    ∃ base base', (build .plain (Table.ofList [(.root, oneTitle)]) Table.empty ".html").result = .ok base
      ∧ (build .plain ((Table.ofList [(.root, oneTitle)]).insert .root oneTitleAhead) Table.empty
          ".html").result = .ok base'
      ∧ base'.tree? "title" = base.tree? "title" := by
  have hok : (build .plain (Table.ofList [(.root, oneTitle)]) Table.empty ".html").result.toOption.isSome
      = true := by decide +kernel
  have hsource : (Table.ofList [(SourceId.root, oneTitle)]).get? .root = some oneTitle := rfl
  have hpartials : partials ".html" oneTitle ≠ [] := by decide +kernel
  have hnames : ((Group.parsedFile? Table.empty oneTitleAhead ⟨"partials/a.html"⟩).map
      fun s => s.trees.map Tree.name) = some ["a.html"] := by decide +kernel
  obtain ⟨base, hbase⟩ := Option.isSome_iff_exists.1 hok
  rw [toOption_eq_some] at hbase
  obtain ⟨parsed, hparsed, htrees⟩ := Option.map_eq_some_iff.1 hnames
  obtain ⟨base', hbase', hfinds⟩ :=
    build_insert_oneMorePartial hbase hsource hpartials oneMorePartial_ahead hparsed
  refine ⟨base, base', hbase, hbase', ?_⟩
  rcases hfinds "title" (by rw [htrees]; decide) with hsame | ⟨hlast, _⟩
  · exact hsame
  · exact absurd hlast (by simp)

/-- The texts of a template. -/
def textsOf (t : Tree) : List String :=
  t.root.filterMap fun n =>
    match n with
    | .text s => some s
    | _ => none

/-- One more partial does not always leave the other names alone, even if no other file defines what
it defines: behind the last one, it brings the layouts to the word. -/
theorem not_build_insert_oneMorePartial_keeps :
    ¬ ∀ (functions : FuncTable) (ext : String) (sources : Sources) (base : Group) (id : SourceId)
        (source source' : Source) (l : Location) (front back : List Path) (parsed : ParsedSource),
      (build .plain sources functions ext).result = .ok base → sources.get? id = some source →
      partials ext source ≠ [] → OneMorePartial .plain ext source source' l front back →
      Group.parsedFile? functions source' l.path = some parsed →
      (∀ id' other, sources.get? id' = some other →
        ∀ p ∈ layouts .plain ext other ++ partials ext other, ∀ t ∈ fileTrees functions other p,
          t.name ∉ parsed.trees.map Tree.name) →
        ∃ base', (build .plain (sources.insert id source') functions ext).result = .ok base'
          ∧ ∀ name, name ∉ parsed.trees.map Tree.name → base'.tree? name = base.tree? name := by
  have hthen : ((build .plain (Table.ofList [(.root, oneTitle)]) Table.empty ".html").result.toOption.map
      fun base => (base.tree? "title").map textsOf) = some (some ["partial"]) := by decide +kernel
  have hnow : ((build .plain ((Table.ofList [(.root, oneTitle)]).insert .root oneTitleBehind) Table.empty
      ".html").result.toOption.map fun base => (base.tree? "title").map textsOf)
        = some (some ["layout"]) := by decide +kernel
  have hsource : (Table.ofList [(SourceId.root, oneTitle)]).get? .root = some oneTitle := rfl
  have hpartials : partials ".html" oneTitle ≠ [] := by decide +kernel
  have hnames : ((Group.parsedFile? Table.empty oneTitleBehind ⟨"partials/c.html"⟩).map
      fun s => s.trees.map Tree.name) = some ["c.html"] := by decide +kernel
  have hothers : ∀ p ∈ layouts .plain ".html" oneTitle ++ partials ".html" oneTitle,
      ∀ t ∈ fileTrees Table.empty oneTitle p, t.name ∉ ["c.html"] := by
    have hchecked : ((layouts .plain ".html" oneTitle ++ partials ".html" oneTitle).all fun p =>
        (fileTrees Table.empty oneTitle p).all fun t => t.name ∉ ["c.html"]) = true := by
      decide +kernel
    simpa only [List.all_eq_true, decide_eq_true_eq] using hchecked
  obtain ⟨base, hbase, htitle⟩ := Option.map_eq_some_iff.1 hthen
  obtain ⟨parsed, hparsed, htrees⟩ := Option.map_eq_some_iff.1 hnames
  intro hkeeps
  obtain ⟨base', hbase', hsame⟩ := hkeeps Table.empty ".html" (Table.ofList [(.root, oneTitle)]) base
    .root oneTitle oneTitleBehind ["partials", "c.html"] [⟨"partials/b.html"⟩] [] parsed
    (toOption_eq_some.1 hbase) hsource hpartials oneMorePartial_behind hparsed (by
      intro id' other hother
      rw [htrees]
      have hid : id' = .root ∧ other = oneTitle := by
        have hmem := Entries.mem_keys_of_get? hother
        simpa [Table.ofList, Table.insert, Table.empty, Entries.insert] using hmem
      rw [hid.2]
      exact hothers)
  rw [toOption_eq_some.2 hbase', Option.map_some, hsame "title" (by rw [htrees]; decide), htitle] at hnow
  exact absurd hnow (by decide)

end CommonBase

end Stencil
