/-
The pages of a site, file by file.

A build takes the template files among the views of every source in one order: the sources in
theirs, and below a directory of views the files as a walk meets them. What a page depends on is
collected in a `ViewFile`: where the file stands and what it says. Two things are proved about a
build that succeeds. Every identifier finds the page of the last file that has it, and that page is
the shared templates with the main tree and the definitions of this one file added. So nothing that
another file says can be seen in a page, which is the point of giving each page a group of its own.
-/
import Mathlib.Data.List.Permutation
import Mathlib.Data.Option.Basic
import Stencil.Files.Memory
import Stencil.Proofs.Definitions
import Stencil.Proofs.Namespace
import Stencil.Proofs.SourceQuestions
import Stencil.Site.Pages

set_option autoImplicit false

namespace Stencil

open Stencil.Runs

/-! ## The files of a build -/

/-- A template file among the views of a source, with what the source answers when it is read. -/
structure ViewFile where
  source : SourceId
  path : Path
  text : Except FileError String

namespace ViewFile

/-- The identifier of the page in a file. -/
def pageId? (ext : String) (f : ViewFile) : Option String :=
  PageId.ofPath? f.source Pages.viewsDir f.path ext

/-- What a file contributes: `parsed`, found by parsing its text under its file name. -/
def Contributes (functions : FuncTable) (f : ViewFile) (name : String) (parsed : ParsedSource) :
    Prop :=
  f.path.fileName? = some name
    ∧ ∃ text, f.text = .ok text ∧ Parser.parse functions.defines name text = .ok parsed

/-- The files among some entries that end in the extension. -/
def among (ext : String) (id : SourceId) (source : Source) (entries : List Entry) :
    List ViewFile :=
  (entries.filter fun e => e.kind = .file && Extension.endsPath ext e.path).map fun e =>
    ⟨id, e.path, source.read e.path⟩

/-- The template files among the views of one source. There are none if its views are not a
directory. -/
def ofSource (ext : String) (id : SourceId) (source : Source) : List ViewFile :=
  match source.metadata Pages.viewsDir, source.walk Pages.viewsDir with
  | .ok .directory, .ok entries => among ext id source entries
  | _, _ => []

/-- The template files among the views of all sources, in the order in which they are taken. -/
def ofSources (sources : Sources) (ext : String) : List ViewFile :=
  sources.entries.flatMap fun e => ofSource ext e.1 e.2

/-- The files whose page has a given identifier. -/
def withId (ext k : String) (files : List ViewFile) : List ViewFile :=
  files.filter fun f => f.pageId? ext = some k

/-- The last of the files whose page has a given identifier. -/
def last? (ext k : String) (files : List ViewFile) : Option ViewFile :=
  (withId ext k files).getLast?

theorem last?_append_self {ext k : String} {f : ViewFile} (h : f.pageId? ext = some k)
    (files : List ViewFile) : last? ext k (files ++ [f]) = some f := by
  have hf : [f].filter (fun g => g.pageId? ext = some k) = [f] :=
    List.filter_cons_of_pos (by simpa using h)
  unfold last? withId
  rw [List.filter_append, hf, List.getLast?_append]
  rfl

theorem last?_append_of_ne {ext k : String} {f : ViewFile} (h : f.pageId? ext ≠ some k)
    (files : List ViewFile) : last? ext k (files ++ [f]) = last? ext k files := by
  have hf : [f].filter (fun g => g.pageId? ext = some k) = [] :=
    List.filter_cons_of_neg (by simpa using h)
  unfold last? withId
  rw [List.filter_append, hf, List.append_nil]

theorem mem_of_last? {ext k : String} {f : ViewFile} {files : List ViewFile}
    (h : last? ext k files = some f) : f ∈ files ∧ f.pageId? ext = some k := by
  have hmem : f ∈ withId ext k files := List.mem_of_getLast? h
  unfold withId at hmem
  rw [List.mem_filter] at hmem
  exact ⟨hmem.1, by simpa using hmem.2⟩

/-- An identifier has a last file as soon as it has one. -/
theorem isSome_last? {ext k : String} {files : List ViewFile} :
    (last? ext k files).isSome = true ↔ ∃ f ∈ files, f.pageId? ext = some k := by
  constructor
  · intro h
    obtain ⟨f, hf⟩ := Option.isSome_iff_exists.1 h
    obtain ⟨hmem, hid⟩ := mem_of_last? hf
    exact ⟨f, hmem, hid⟩
  · rintro ⟨f, hmem, hid⟩
    have hne : withId ext k files ≠ [] :=
      List.ne_nil_of_mem (List.mem_filter.2 ⟨hmem, by simpa using hid⟩)
    unfold last?
    rw [Option.isSome_iff_ne_none, ne_eq, List.getLast?_eq_none_iff]
    exact hne

end ViewFile

/-! ## The page of a file -/

/-- Says of a page that it is the one in a file: it stands where the file stands, and its group is
the shared templates with the file's contribution added and the file's own template as entry. -/
structure Page.CompiledFrom (base : Group) (ext : String) (f : ViewFile) (page : Page) : Prop where
  id : f.pageId? ext = some page.id
  source : page.source = f.source
  path : page.path = f.path
  group : ∃ name parsed, f.Contributes base.functions name parsed
    ∧ page.group = { base.addSource parsed with entry := name }

/-- A file contributes one thing only. -/
theorem ViewFile.Contributes.unique {functions : FuncTable} {f : ViewFile} {name name' : String}
    {parsed parsed' : ParsedSource} (h : f.Contributes functions name parsed)
    (h' : f.Contributes functions name' parsed') : name = name' ∧ parsed = parsed' := by
  obtain ⟨hname, text, htext, hparsed⟩ := h
  obtain ⟨hname', text', htext', hparsed'⟩ := h'
  have hn : name = name' := Option.some.inj (hname.symm.trans hname')
  have ht : text = text' := Except.ok.inj (htext.symm.trans htext')
  subst hn ht
  exact ⟨rfl, Except.ok.inj (hparsed.symm.trans hparsed')⟩

/-- Only one page is compiled from a file. -/
theorem Page.CompiledFrom.unique {base : Group} {ext : String} {f : ViewFile} {page page' : Page}
    (h : page.CompiledFrom base ext f) (h' : page'.CompiledFrom base ext f) : page = page' := by
  obtain ⟨name, parsed, hparsed, hgroup⟩ := h.group
  obtain ⟨name', parsed', hparsed', hgroup'⟩ := h'.group
  obtain ⟨rfl, rfl⟩ := hparsed.unique hparsed'
  have hid : page.id = page'.id := Option.some.inj (h.id.symm.trans h'.id)
  have hsource : page.source = page'.source := h.source.trans h'.source.symm
  have hpath : page.path = page'.path := h.path.trans h'.path.symm
  have hsame : page.group = page'.group := hgroup.trans hgroup'.symm
  cases page
  cases page'
  simp only [Page.mk.injEq]
  exact ⟨hid, hsource, hpath, hsame⟩

namespace Pages

/-! ## One file

The reports of a build are left out of account from here on: only its result is looked at. -/

theorem compile_eq_ok {base : Group} {ext k : String} {id : SourceId} {source : Source} {p : Path}
    {name : String} {page : Page} (hid : PageId.ofPath? id viewsDir p ext = some k)
    (hname : p.fileName? = some name)
    (h : (compile base id source k p).result = .ok page) :
    page.id = k ∧ page.CompiledFrom base ext ⟨id, p, source.read p⟩ := by
  have htemplate : Group.templateName p = name := by
    unfold Group.templateName
    rw [hname]
    rfl
  unfold compile at h
  obtain ⟨group, hgroup, hpage⟩ := traced_bind_eq_ok.1 h
  unfold CommonBase.addFile at hgroup
  obtain ⟨more, hmore, hreported⟩ := traced_bind_eq_ok.1 hgroup
  -- What the file adds to is the group of the shared templates, and not that of another page.
  have hsame : more = group := Except.ok.inj hreported
  obtain ⟨text, parsed, htext, hparsed, hadded⟩ :=
    Group.parseFile_eq_ok.1 (mapError_eq_ok.1 hmore)
  rw [htemplate] at hparsed hpage
  rw [← Except.ok.inj hpage]
  refine ⟨rfl, hid, rfl, rfl, name, parsed, ⟨hname, text, htext, hparsed⟩, ?_⟩
  rw [← hsame, hadded]

/-- A file adds its page under the page's identifier and does nothing else. -/
theorem addFile_eq_ok {base : Group} {ext : String} {id : SourceId} {source : Source}
    {pages more : Pages} {p : Path} {name : String} (hname : p.fileName? = some name)
    (h : (addFile base ext id source pages p).result = .ok more) :
    ∃ page : Page, page.CompiledFrom base ext ⟨id, p, source.read p⟩
      ∧ more = pages.insert page.id page := by
  unfold addFile at h
  cases hid : PageId.ofPath? id viewsDir p ext with
  | none =>
    rw [hid] at h
    exact absurd h (by simp)
  | some k =>
    rw [hid] at h
    obtain ⟨page, hpage, hrest⟩ := traced_bind_eq_ok.1 h
    obtain ⟨hk, hcompiled⟩ := compile_eq_ok hid hname hpage
    obtain ⟨_, _, hreported⟩ := traced_bind_eq_ok.1 hrest
    refine ⟨page, hcompiled, ?_⟩
    rw [hk]
    -- A page that is replaced is only reported.
    split at hreported
    · obtain ⟨_, _, hdone⟩ := traced_bind_eq_ok.1 hreported
      exact (Except.ok.inj hdone).symm
    · exact (Except.ok.inj hreported).symm

/-! ## Whole builds -/

/-- Says that pages are those of some files taken in order: each file has an identifier, and each
identifier finds the page of the last file that has it. -/
structure BuiltFrom (base : Group) (ext : String) (files : List ViewFile) (pages : Pages) :
    Prop where
  identified : ∀ f ∈ files, ∃ k, f.pageId? ext = some k
  found : ∀ k, Option.Rel (fun f (page : Page) => page.CompiledFrom base ext f)
    (ViewFile.last? ext k files) (pages.get? k)

theorem builtFrom_nil (base : Group) (ext : String) : BuiltFrom base ext [] Table.empty :=
  ⟨fun _ h => absurd h (List.not_mem_nil), fun _ => Option.Rel.none⟩

/-- The page of one more file takes the place of the one that had its identifier, and leaves all
other pages as they are. -/
theorem BuiltFrom.insert {base : Group} {ext : String} {files : List ViewFile} {pages : Pages}
    {f : ViewFile} {page : Page} (h : BuiltFrom base ext files pages)
    (hpage : page.CompiledFrom base ext f) :
    BuiltFrom base ext (files ++ [f]) (pages.insert page.id page) := by
  refine ⟨?_, ?_⟩
  · intro g hg
    rcases List.mem_append.1 hg with hg | hg
    · exact h.identified g hg
    · rw [List.mem_singleton.1 hg]
      exact ⟨page.id, hpage.id⟩
  · intro k
    rw [Table.get?_insert]
    by_cases hk : k = page.id
    · rw [if_pos hk, hk, ViewFile.last?_append_self hpage.id]
      exact Option.Rel.some hpage
    · have hne : f.pageId? ext ≠ some k := by
        rw [hpage.id]
        exact fun heq => hk (Option.some.inj heq).symm
      rw [if_neg hk, ViewFile.last?_append_of_ne hne]
      exact h.found k

theorem ofSource_eq_nil {id : SourceId} {source : Source} {ext : String}
    (h : source.metadata viewsDir ≠ .ok .directory) : ViewFile.ofSource ext id source = [] := by
  unfold ViewFile.ofSource
  split
  · rename_i hdir _
    exact absurd hdir h
  · rfl

theorem ofSource_eq_map {id : SourceId} {source : Source} {ext : String} {paths : List Path}
    (hdir : source.metadata viewsDir = .ok .directory)
    (hpaths : (CommonBase.filesBelow id source ext viewsDir).result = .ok paths) :
    ViewFile.ofSource ext id source = paths.map fun p => ⟨id, p, source.read p⟩ := by
  obtain ⟨entries, hwalk, hfiles⟩ := CommonBase.filesBelow_eq_ok_iff.1 hpaths
  unfold ViewFile.ofSource ViewFile.among
  rw [hdir, hwalk, hfiles, List.map_map]
  rfl

/-- Every file that a walk finds has a name, because it is the name that has to end in the
extension. -/
theorem fileName?_of_filesBelow {id : SourceId} {source : Source} {ext : String} {dir p : Path}
    {paths : List Path} (hpaths : (CommonBase.filesBelow id source ext dir).result = .ok paths)
    (hp : p ∈ paths) : ∃ name, p.fileName? = some name := by
  obtain ⟨entries, _, hfiles⟩ := CommonBase.filesBelow_eq_ok_iff.1 hpaths
  rw [hfiles, List.mem_map] at hp
  obtain ⟨e, he, rfl⟩ := hp
  have hends : Extension.endsPath ext e.path = true := by
    have hboth := (List.mem_filter.1 he).2
    rw [Bool.and_eq_true] at hboth
    exact hboth.2
  unfold Extension.endsPath at hends
  split at hends
  · rename_i name hname
    exact ⟨name, hname⟩
  · exact absurd hends (by simp)

theorem BuiltFrom.addFiles {base : Group} {ext : String} {id : SourceId} {source : Source}
    {files : List ViewFile} {pages more : Pages} {paths : List Path}
    (h : BuiltFrom base ext files pages) (hnames : ∀ p ∈ paths, ∃ name, p.fileName? = some name)
    (hrun : paths.foldlM (fun pages p => (addFile base ext id source pages p).result) pages
      = .ok more) :
    BuiltFrom base ext (files ++ paths.map fun p => ⟨id, p, source.read p⟩) more := by
  induction paths generalizing files pages with
  | nil =>
    rw [List.foldlM_nil] at hrun
    rw [List.map_nil, List.append_nil, ← Except.ok.inj hrun]
    exact h
  | cons p rest ih =>
    rw [List.foldlM_cons] at hrun
    obtain ⟨next, hnext, hrest⟩ := monad_bind_eq_ok.1 hrun
    obtain ⟨name, hname⟩ := hnames p List.mem_cons_self
    obtain ⟨page, hpage, rfl⟩ := addFile_eq_ok hname hnext
    -- The file that is done joins those in front, so that the rest is taken behind it.
    have hadded := ih (h.insert hpage) (fun q hq => hnames q (List.mem_cons_of_mem _ hq)) hrest
    rwa [List.append_assoc] at hadded

/-- A source adds the pages of its view files. -/
theorem BuiltFrom.addSource {base : Group} {ext : String} {id : SourceId} {source : Source}
    {files : List ViewFile} {pages more : Pages} (h : BuiltFrom base ext files pages)
    (hrun : (Pages.addSource base ext pages id source).result = .ok more) :
    BuiltFrom base ext (files ++ ViewFile.ofSource ext id source) more := by
  unfold Pages.addSource at hrun
  obtain ⟨isDir, hisDir, hrest⟩ := traced_bind_eq_ok.1 hrun
  obtain ⟨_, hdir⟩ := CommonBase.hasDirectory_eq_ok_iff.1 hisDir
  split at hrest
  · rename_i hyes
    obtain ⟨paths, hpaths, hloop⟩ := traced_bind_eq_ok.1 hrest
    obtain ⟨pages', hpages', hdone⟩ := traced_bind_eq_ok.1 hloop
    rw [Traced.result_foldlM] at hpages'
    obtain ⟨_, _, hmore⟩ := traced_bind_eq_ok.1 hdone
    have hsame : pages' = more := Except.ok.inj hmore
    rw [ofSource_eq_map (hdir.1 hyes) hpaths, ← hsame]
    exact h.addFiles (fun p hp => fileName?_of_filesBelow hpaths hp) hpages'
  · rename_i hno
    -- A source without views is only reported.
    obtain ⟨_, _, hmore⟩ := traced_bind_eq_ok.1 hrest
    have hsame : pages = more := Except.ok.inj hmore
    rw [ofSource_eq_nil fun hmeta => hno (hdir.2 hmeta), List.append_nil, ← hsame]
    exact h

/-- A build that succeeds has built the pages of all view files. The induction over the sources
keeps that the pages so far are those of the sources so far. -/
theorem builtFrom_of_build {sources : Sources} {base : Group} {ext : String} {pages : Pages}
    (h : (build sources base ext).result = .ok pages) :
    BuiltFrom base ext (ViewFile.ofSources sources ext) pages := by
  unfold build at h
  refine traced_foldlM_invariant
    (fun (done : List (SourceId × Source)) (pages : Pages) =>
      BuiltFrom base ext (done.flatMap fun e => ViewFile.ofSource ext e.1 e.2) pages)
    ?_ (builtFrom_nil base ext) h
  intro done e pages more hdone hstep
  rw [List.flatMap_append, List.flatMap_singleton]
  exact hdone.addSource hstep

/-! ## What the pages of a build are -/

/-- An identifier is listed exactly if a file has it. -/
theorem BuiltFrom.mem_keys_iff {base : Group} {ext k : String} {files : List ViewFile}
    {pages : Pages} (h : BuiltFrom base ext files pages) :
    k ∈ pages.keys ↔ ∃ f ∈ files, f.pageId? ext = some k := by
  have hrel := h.found k
  rw [← ViewFile.isSome_last?, Table.mem_keys_iff]
  generalize ViewFile.last? ext k files = f? at hrel ⊢
  generalize pages.get? k = page? at hrel ⊢
  cases hrel with
  | none => rfl
  | some _ => rfl

theorem BuiltFrom.last?_of_get? {base : Group} {ext k : String} {files : List ViewFile}
    {pages : Pages} {page : Page} (h : BuiltFrom base ext files pages)
    (hpage : pages.get? k = some page) :
    ∃ f, ViewFile.last? ext k files = some f ∧ page.CompiledFrom base ext f := by
  have hrel := h.found k
  rw [hpage] at hrel
  generalize ViewFile.last? ext k files = f? at hrel ⊢
  cases hrel with
  | some hcompiled => exact ⟨_, rfl, hcompiled⟩

/-- Two builds that agree on the last file of an identifier agree on its page. -/
theorem BuiltFrom.get?_congr {base : Group} {ext k : String} {files files' : List ViewFile}
    {pages pages' : Pages} (h : BuiltFrom base ext files pages)
    (h' : BuiltFrom base ext files' pages')
    (hlast : ViewFile.last? ext k files = ViewFile.last? ext k files') :
    pages.get? k = pages'.get? k := by
  have hrel := h.found k
  have hrel' := h'.found k
  rw [← hlast] at hrel'
  generalize ViewFile.last? ext k files = f? at hrel hrel'
  generalize pages.get? k = page? at hrel ⊢
  generalize pages'.get? k = page?' at hrel' ⊢
  cases hrel with
  | none =>
    cases hrel' with
    | none => rfl
  | some hpage =>
    cases hrel' with
    | some hpage' => rw [hpage.unique hpage']

/-- The names in a page's group are those of the shared templates and those of its own file, and the
names that are not its own find what they find in the shared templates. -/
theorem names_of_addSource {base : Group} {f : ViewFile} {name : String} {parsed : ParsedSource}
    {page : Page} (hparsed : f.Contributes base.functions name parsed)
    (hgroup : page.group = { base.addSource parsed with entry := name }) :
    (∀ n, n ∈ page.templateNames
        ↔ n ∈ base.templates.keys ∨ n = name ∨ n ∈ parsed.defines.map Tree.name)
      ∧ ∀ n, n ≠ name → n ∉ parsed.defines.map Tree.name →
          page.group.tree? n = base.tree? n := by
  obtain ⟨_, text, _, hparse⟩ := hparsed
  have hmain : parsed.main.name = name := Parser.main_name_of_parse hparse
  refine ⟨fun n => ?_, fun n hname hdefines => ?_⟩
  · unfold Page.templateNames
    rw [hgroup, ← hmain]
    exact Group.mem_names_addSource
  · rw [hgroup]
    exact Group.tree?_addSource_of_unnamed (fun heq => hname (heq.trans hmain)) hdefines

/-- **A build is exact, and its pages are isolated.** The identifiers are those of the view files;
every view file has one; under an identifier stands the page of the last file that has it, made of
the shared templates and that one file; and a build from other sources that has the same files of an
identifier has the same page, whatever its other files are. -/
theorem build_exact {sources : Sources} {base : Group} {ext : String} {pages : Pages}
    (h : (build sources base ext).result = .ok pages) :
    (∀ k, k ∈ pages.keys ↔ ∃ f ∈ ViewFile.ofSources sources ext, f.pageId? ext = some k)
      ∧ (∀ f ∈ ViewFile.ofSources sources ext, ∃ k, f.pageId? ext = some k)
      ∧ (∀ k page, pages.get? k = some page →
          page.id = k ∧ ∃ f name parsed,
            ViewFile.last? ext k (ViewFile.ofSources sources ext) = some f
            ∧ page.source = f.source ∧ page.path = f.path
            ∧ f.Contributes base.functions name parsed
            ∧ page.group = { base.addSource parsed with entry := name }
            ∧ (∀ n, n ∈ page.templateNames
                ↔ n ∈ base.templates.keys ∨ n = name ∨ n ∈ parsed.defines.map Tree.name)
            ∧ ∀ n, n ≠ name → n ∉ parsed.defines.map Tree.name →
                page.group.tree? n = base.tree? n)
      ∧ ∀ sources' pages', (build sources' base ext).result = .ok pages' →
          ∀ k, ViewFile.withId ext k (ViewFile.ofSources sources ext)
              = ViewFile.withId ext k (ViewFile.ofSources sources' ext) →
            pages.get? k = pages'.get? k := by
  have hbuilt : BuiltFrom base ext (ViewFile.ofSources sources ext) pages := builtFrom_of_build h
  refine ⟨fun k => hbuilt.mem_keys_iff, hbuilt.identified, ?_, ?_⟩
  · intro k page hpage
    obtain ⟨f, hlast, hcompiled⟩ := hbuilt.last?_of_get? hpage
    obtain ⟨name, parsed, hparsed, hgroup⟩ := hcompiled.group
    obtain ⟨hnames, hothers⟩ := names_of_addSource hparsed hgroup
    have hid : f.pageId? ext = some k := (ViewFile.mem_of_last? hlast).2
    exact ⟨Option.some.inj (hcompiled.id.symm.trans hid), f, name, parsed, hlast,
      hcompiled.source, hcompiled.path, hparsed, hgroup, hnames, hothers⟩
  · intro sources' pages' h' k hsame
    refine hbuilt.get?_congr (builtFrom_of_build h') ?_
    unfold ViewFile.last?
    rw [hsame]

/-- Two sources with a file each for the identifier `blog:post`. -/
def collidingSources : Sources :=
  Table.ofList [
    (.root, (Memory.ofFiles [(⟨"views/blog:post.html"⟩, "root")]).source),
    (.named "blog", (Memory.ofFiles [(⟨"views/post.html"⟩, "blog")]).source)]

/-- The file of the later source has the identifier. -/
theorem build_exact_collidingSources :
    ∃ pages, (build collidingSources (Group.named "_common_") ".html").result = .ok pages
      ∧ "blog:post" ∈ pages.keys
      ∧ ∀ page, pages.get? "blog:post" = some page → page.source = .named "blog" := by
  have hok : (build collidingSources (Group.named "_common_") ".html").result.isOk = true := by cbv
  cases hpages : (build collidingSources (Group.named "_common_") ".html").result with
  | error e =>
    rw [hpages] at hok
    exact absurd hok (by simp [Except.isOk, Except.toBool])
  | ok pages =>
    obtain ⟨hkeys, _, hfound, _⟩ := build_exact hpages
    have hlast : (ViewFile.last? ".html" "blog:post"
        (ViewFile.ofSources collidingSources ".html")).map (fun f => (f.source, f.pageId? ".html"))
          = some (.named "blog", some "blog:post") := by cbv
    obtain ⟨f, hf, hpair⟩ := Option.map_eq_some_iff.1 hlast
    refine ⟨pages, rfl, ?_, ?_⟩
    · rw [hkeys]
      exact ⟨f, (ViewFile.mem_of_last? hf).1, (Prod.mk.inj hpair).2⟩
    · intro page hpage
      obtain ⟨_, g, _, _, hg, hsource, _⟩ := hfound "blog:post" page hpage
      have hgf : g = f := Option.some.inj (hg.symm.trans hf)
      rw [hsource, hgf]
      exact (Prod.mk.inj hpair).1

end Pages

end Stencil
