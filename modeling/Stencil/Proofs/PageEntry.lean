/-
What a page renders.

Rendering a page executes the template that its group finds under the name of the page's file. Two
things besides the file's own content may stand there. The shared templates may have one of the same
name, which stays in place if the page's content is blank; and the file may define its own name,
which replaces its content. The main statement says that there is no third way: a page finds its own
content under its entry exactly if neither happens.
-/
import Stencil.Proofs.SharedFiles
import Stencil.Proofs.ViewFiles
import Stencil.Site.Registry

set_option autoImplicit false

namespace Stencil

open Stencil.Runs

/-! ## Names that a source gives twice -/

namespace Group

/-- Of templates with distinct names, at most one has a given name. -/
theorem filter_name_of_nodup {ts : List Tree} (h : (ts.map Tree.name).Nodup) (name : String) :
    (ts.filter fun t => t.name = name) = (ts.find? fun t => t.name = name).toList := by
  induction ts with
  | nil => rfl
  | cons t rest ih =>
    rw [List.map_cons, List.nodup_cons] at h
    by_cases hname : t.name = name
    · have hnone : (rest.filter fun u => u.name = name) = [] := by
        rw [List.filter_eq_nil_iff]
        intro u hu
        have hne : u.name ≠ name := fun heq => h.1 (hname ▸ heq ▸ List.mem_map_of_mem hu)
        simpa using hne
      rw [List.filter_cons_of_pos (by simpa using hname), hnone,
        List.find?_cons_of_pos (by simpa using hname)]
      rfl
    · rw [List.filter_cons_of_neg (by simpa using hname), ih h.2,
        List.find?_cons_of_neg (by simpa using hname)]

/-- A template takes a place unless it is blank and what stands there is not. -/
theorem settle_eq_self_iff {old : Option Tree} {t : Tree} :
    settle old t = some t
      ↔ (t.isEmpty = true → ∀ o, old = some o → o.isEmpty = true) := by
  cases old with
  | none => simp [settle, replaces]
  | some o => grind [settle, replaces]

/-- A template stays in place under another one if that is the same or is blank. -/
theorem settle_settle_eq_iff {old : Option Tree} {t u : Tree} :
    settle (settle old t) u = some t
      ↔ (t.isEmpty = true → ∀ o, old = some o → o.isEmpty = true)
        ∧ (u = t ∨ u.isEmpty = true ∧ t.isEmpty = false) := by
  cases old with
  | none => grind [settle, replaces]
  | some o => grind [settle, replaces]

/-- **When the content of a source is found under the source's own name.** -/
theorem tree?_addSource_main_iff {g : Group} {s : ParsedSource}
    (hnames : (s.defines.map Tree.name).Nodup) :
    (g.addSource s).tree? s.main.name = some s.main
      ↔ (s.main.isEmpty = true → ∀ o, g.tree? s.main.name = some o → o.isEmpty = true)
        ∧ ∀ d ∈ s.defines, d.name = s.main.name →
            d = s.main ∨ d.isEmpty = true ∧ s.main.isEmpty = false := by
  have hown := filter_name_of_nodup hnames s.main.name
  rw [tree?_addSource, List.filter_cons_of_pos (by simp), List.foldl_cons]
  cases hd : s.defines.find? (fun t => t.name = s.main.name) with
  | none =>
    rw [hd] at hown
    rw [hown, Option.toList_none, List.foldl_nil, settle_eq_self_iff]
    -- The source does not define its own name, so nothing is asked of its definitions.
    refine ⟨fun h => ⟨h, fun d hmem hname => ?_⟩, fun h => h.1⟩
    exact absurd hname (by simpa using List.find?_eq_none.1 hd d hmem)
  | some d =>
    rw [hd] at hown
    have hmem : d ∈ s.defines := List.mem_of_find?_eq_some hd
    have hname : d.name = s.main.name := by simpa using List.find?_some hd
    rw [hown, Option.toList_some, List.foldl_cons, List.foldl_nil, settle_settle_eq_iff]
    -- The names are distinct, so the definition of this name is the one that was found.
    refine ⟨fun h => ⟨h.1, fun e he hename => ?_⟩, fun h => ⟨h.1, h.2 d hmem hname⟩⟩
    have hefilter : e ∈ s.defines.filter fun t => t.name = s.main.name :=
      List.mem_filter.2 ⟨he, by simpa using hename⟩
    rw [hown, Option.toList_some, List.mem_singleton] at hefilter
    rw [hefilter]
    exact h.2

end Group

/-! ## The pages of a site -/

namespace ViewFile

/-- A view file is a file of one of the sources. -/
theorem source_of_mem_ofSources {sources : Sources} {ext : String} {f : ViewFile}
    (h : f ∈ ofSources sources ext) :
    ∃ source, sources.get? f.source = some source ∧ f.text = source.read f.path := by
  obtain ⟨⟨id, source⟩, hentry, hf⟩ := List.mem_flatMap.1 h
  unfold ofSource at hf
  split at hf
  · obtain ⟨e, _, rfl⟩ := List.mem_map.1 hf
    exact ⟨source, Table.get?_of_mem hentry, rfl⟩
  · exact absurd hf List.not_mem_nil

end ViewFile

namespace Site

/-- A load that succeeds has built the shared templates and the pages on top of them. -/
theorem load_eq_ok {glob : Glob} {s loaded : Site} (h : (s.load glob).result = .ok loaded) :
    ∃ base pages, (CommonBase.build glob s.sources s.functions s.extension).result = .ok base
      ∧ (Pages.build s.sources base s.extension).result = .ok pages
      ∧ loaded = { s with pages } := by
  unfold load at h
  obtain ⟨base, hbase, hrest⟩ := traced_bind_eq_ok.1 h
  obtain ⟨pages, hpages, hreported⟩ := traced_bind_eq_ok.1 hrest
  exact ⟨base, pages, mapError_eq_ok.1 hbase, mapError_eq_ok.1 hpages,
    (Except.ok.inj hreported).symm⟩

/-- **When a page renders its own content.** For every page of a loaded site, let `parsed` be what
its own file is parsed to. Its entry finds the main tree of that, and rendering executes it, exactly
if the shared templates have nothing but blanks under the entry or the main tree has more than
blanks, and no definition in the file takes its own name away from it. -/
theorem entry_finds_main_iff {glob : Glob} {s loaded : Site} {k : String} {page : Page}
    (h : (s.load glob).result = .ok loaded) (hpage : loaded.lookUp? k = some page) :
    ∃ base source text parsed,
      (CommonBase.build glob s.sources s.functions s.extension).result = .ok base
      ∧ s.sources.get? page.source = some source ∧ source.read page.path = .ok text
      ∧ page.path.fileName? = some page.group.entry
      ∧ Parser.parse s.functions.defines page.group.entry text = .ok parsed
      ∧ (page.group.tree? page.group.entry = some parsed.main
          ↔ (parsed.main.isEmpty = true →
              ∀ shared, base.tree? page.group.entry = some shared → shared.isEmpty = true)
            ∧ ∀ d ∈ parsed.defines, d.name = page.group.entry →
                d = parsed.main ∨ d.isEmpty = true ∧ parsed.main.isEmpty = false)
      ∧ (page.group.tree? page.group.entry = some parsed.main →
          ∀ v, page.render v = page.group.run 100 parsed.main v) := by
  obtain ⟨base, pages, hbase, hpages, rfl⟩ := load_eq_ok h
  have hfunctions : base.functions = s.functions := CommonBase.functions_of_build hbase
  obtain ⟨f, hlast, hcompiled⟩ := (Pages.builtFrom_of_build hpages).last?_of_get? hpage
  obtain ⟨source, hsource, hread⟩ :=
    ViewFile.source_of_mem_ofSources (ViewFile.mem_of_last? hlast).1
  obtain ⟨name, parsed, ⟨hname, text, htext, hparse⟩, hgroup⟩ := hcompiled.group
  have hentry : page.group.entry = name := by rw [hgroup]
  have hmain : parsed.main.name = page.group.entry := by
    rw [hentry]
    exact Parser.main_name_of_parse hparse
  -- The entry does not matter for what a name finds.
  have htree : page.group.tree? page.group.entry
      = (base.addSource parsed).tree? parsed.main.name := by
    rw [hmain, hgroup]
    rfl
  refine ⟨base, source, text, parsed, hbase, ?_, ?_, ?_, ?_, ?_, ?_⟩
  · rw [hcompiled.source]
    exact hsource
  · rw [hcompiled.path, ← hread]
    exact htext
  · rw [hcompiled.path, hentry]
    exact hname
  · rw [hentry, ← hfunctions]
    exact hparse
  · rw [htree, ← hmain]
    exact Group.tree?_addSource_main_iff (Parser.nodup_names_of_parse hparse)
  · intro hfound v
    unfold Page.render Group.execute Group.executeTemplate Group.callsBy
    rw [hfound]
    rfl

/-- A source with one file, in a directory at its top. -/
def oneFile (dir name text : String) : Source where
  metadata p := if p = ⟨dir⟩ then .ok .directory else .error (.notFound p)
  list _ := .ok [⟨[dir, name], .file⟩]
  read _ := .ok text
  walk _ := .ok [⟨[dir, name], .file⟩]
  reportsWalks := false

/-- A site with a partial in one source and a page of the same file name in another one. -/
def namesakes (content : String) : Site where
  extension := ".html"
  sources := Table.ofList [
    (.root, oneFile "partials" "home.html" "shared"),
    (.named "blog", oneFile "views" "home.html" content)]
  functions := Table.empty
  pages := Table.empty

/-- A page with more than blanks is found under its entry, whatever the partial says. -/
theorem entry_finds_main_namesakes :
    ∃ loaded page parsed, ((namesakes "own").load .plain).result = .ok loaded
      ∧ loaded.lookUp? "blog:home" = some page
      ∧ Parser.parse (namesakes "own").functions.defines page.group.entry "own" = .ok parsed
      ∧ page.group.tree? page.group.entry = some parsed.main := by
  have hpage : (((namesakes "own").load .plain).result.toOption.bind fun l =>
      (l.lookUp? "blog:home").map fun p => (p.source, p.group.entry))
      = some (.named "blog", "home.html") := by decide +kernel
  have hparse : ((Parser.parse (namesakes "own").functions.defines "home.html" "own").toOption.map
      fun p => (p.main.isEmpty, p.defines.isEmpty)) = some (false, true) := by decide +kernel
  obtain ⟨loaded, hload, hfound⟩ := Option.bind_eq_some_iff.1 hpage
  rw [toOption_eq_some] at hload
  obtain ⟨page, hlook, hpair⟩ := Option.map_eq_some_iff.1 hfound
  obtain ⟨hsource, hentry⟩ := Prod.mk.inj hpair
  obtain ⟨base, source, text, parsed, _, hfrom, hread, _, hparsed, hiff, _⟩ :=
    entry_finds_main_iff hload hlook
  have htext : text = "own" := by
    rw [hsource] at hfrom
    cases hfrom
    exact (Except.ok.inj hread).symm
  rw [htext] at hparsed
  have hflags : (parsed.main.isEmpty, parsed.defines.isEmpty) = (false, true) := by
    rw [← hentry, toOption_eq_some.2 hparsed] at hparse
    exact Option.some.inj hparse
  have hdefines : parsed.defines = [] := by simpa using (Prod.mk.inj hflags).2
  refine ⟨loaded, page, parsed, hload, hlook, hparsed, hiff.2 ⟨fun h => ?_, fun d hd => ?_⟩⟩
  · rw [(Prod.mk.inj hflags).1] at h
    exact absurd h Bool.false_ne_true
  · rw [hdefines] at hd
    exact absurd hd List.not_mem_nil

/-- Not every page finds its own content: the page of a blank file finds the partial. -/
theorem not_entry_finds_main :
    ¬ ∀ (s loaded : Site) (k : String) (page : Page) (source : Source) (text : String)
        (parsed : ParsedSource),
      (s.load .plain).result = .ok loaded → loaded.lookUp? k = some page →
      s.sources.get? page.source = some source → source.read page.path = .ok text →
      Parser.parse s.functions.defines page.group.entry text = .ok parsed →
        page.group.tree? page.group.entry = some parsed.main := by
  have hpage : (((namesakes " ").load .plain).result.toOption.bind fun l =>
      (l.lookUp? "blog:home").map fun p =>
        (p.source, p.group.entry, (p.group.tree? p.group.entry).map Tree.isEmpty))
      = some (.named "blog", "home.html", some false) := by decide +kernel
  have hparse : ((Parser.parse (namesakes " ").functions.defines "home.html" " ").toOption.map
      fun p => p.main.isEmpty) = some true := by decide +kernel
  obtain ⟨loaded, hload, hfound⟩ := Option.bind_eq_some_iff.1 hpage
  obtain ⟨page, hlook, htriple⟩ := Option.map_eq_some_iff.1 hfound
  obtain ⟨hsource, hrest⟩ := Prod.mk.inj htriple
  obtain ⟨hentry, hshown⟩ := Prod.mk.inj hrest
  obtain ⟨parsed, hparsed, hblank⟩ := Option.map_eq_some_iff.1 hparse
  intro hall
  have hmain := hall (namesakes " ") loaded "blog:home" page (oneFile "views" "home.html" " ") " "
    parsed (toOption_eq_some.1 hload) hlook (by rw [hsource]; rfl) rfl
    (by rw [hentry]; exact toOption_eq_some.1 hparsed)
  rw [hmain, Option.map_some, hblank] at hshown
  exact absurd hshown (by decide)

end Site

end Stencil
