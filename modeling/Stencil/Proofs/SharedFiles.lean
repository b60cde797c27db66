/-
The shared templates of a site, file by file.

A build goes through sources, partials and layouts in a loop inside a loop inside a loop. What it
makes is said here without any of them: every source has a list of files in the order in which they
are parsed, its layouts again before every partial; a build succeeds exactly if everything it asks
the sources can be answered and every one of these files is a template; and then it has added the
templates of all these files, one after the other.
-/
import Stencil.Proofs.LastWord
import Stencil.Proofs.SourceQuestions

set_option autoImplicit false

namespace Stencil.CommonBase

open Stencil.Runs

/-! ## The files of a source -/

/-- The layouts of a source as the listing of their directory has them. -/
def layoutEntries (glob : Glob) (ext : String) (source : Source) : List Entry :=
  (entriesOf source layoutsDir source.list).filter (isLayout glob ext)

/-- The layouts of a source in the order of their listing. -/
def layouts (glob : Glob) (ext : String) (source : Source) : List Path :=
  (layoutEntries glob ext source).map Entry.path

/-- Whether an entry of a walk is a partial. -/
def isPartial (ext : String) (e : Entry) : Bool :=
  e.kind = .file && Extension.endsPath ext e.path

/-- The partials of a source in the order of a walk. -/
def partials (ext : String) (source : Source) : List Path :=
  ((entriesOf source partialsDir source.walk).filter (isPartial ext)).map Entry.path

/-- The files of a source in the order in which they are parsed: all layouts before every partial.
A source without partials has none to be parsed. -/
def parseOrder (glob : Glob) (ext : String) (source : Source) : List Path :=
  (partials ext source).flatMap fun p => layouts glob ext source ++ [p]

/-- The templates of a file: its own content under its file name, and its definitions. -/
def fileTrees (functions : FuncTable) (source : Source) (p : Path) : List Tree :=
  ((Group.parsedFile? functions source p).map ParsedSource.trees).getD []

/-- The templates of a source in the order in which they are added. -/
def sourceTrees (glob : Glob) (functions : FuncTable) (ext : String) (source : Source) :
    List Tree :=
  (parseOrder glob ext source).flatMap (fileTrees functions source)

theorem mem_parseOrder_iff {glob : Glob} {ext : String} {source : Source} {p : Path} :
    p ∈ parseOrder glob ext source
      ↔ partials ext source ≠ [] ∧ p ∈ layouts glob ext source ++ partials ext source := by
  unfold parseOrder
  rw [List.mem_flatMap, List.mem_append]
  constructor
  · rintro ⟨q, hq, hp⟩
    refine ⟨List.ne_nil_of_mem hq, ?_⟩
    rcases List.mem_append.1 hp with hp | hp
    · exact Or.inl hp
    · rw [List.mem_singleton.1 hp]
      exact Or.inr hq
  · rintro ⟨hne, hp | hp⟩
    · obtain ⟨q, hq⟩ := List.exists_mem_of_ne_nil _ hne
      exact ⟨q, hq, List.mem_append_left _ hp⟩
    · exact ⟨p, hp, List.mem_append_right _ List.mem_cons_self⟩

/-! ## Sources that can be loaded -/

/-- Says that everything can be answered that a build asks a source apart from its files. Without
partials, nothing is asked about layouts. -/
structure Accessible (source : Source) : Prop where
  partials : Answers source partialsDir
  walk : source.metadata partialsDir = .ok .directory → ∃ entries, source.walk partialsDir = .ok entries
  layouts : source.metadata partialsDir = .ok .directory → Answers source layoutsDir
  list : source.metadata partialsDir = .ok .directory → source.metadata layoutsDir = .ok .directory →
    ∃ entries, source.list layoutsDir = .ok entries

/-- Says that a source can be loaded: everything can be answered, and all its files are templates. -/
def Loads (glob : Glob) (functions : FuncTable) (ext : String) (source : Source) : Prop :=
  Accessible source
    ∧ ∀ p ∈ parseOrder glob ext source, (Group.parsedFile? functions source p).isSome = true

variable {glob : Glob} {id : SourceId} {source : Source} {ext : String} {functions : FuncTable}

theorem layouts_of_list {entries : List Entry} (hmeta : source.metadata layoutsDir = .ok .directory)
    (hlist : source.list layoutsDir = .ok entries) :
    layouts glob ext source = (entries.filter (isLayout glob ext)).map Entry.path := by
  rw [layouts, layoutEntries, entriesOf_of_directory hmeta hlist]

theorem layouts_of_not_directory (hmeta : source.metadata layoutsDir ≠ .ok .directory) :
    layouts glob ext source = [] := by
  rw [layouts, layoutEntries, entriesOf_of_not_directory hmeta]
  rfl

theorem partials_of_walk {entries : List Entry}
    (hmeta : source.metadata partialsDir = .ok .directory)
    (hwalk : source.walk partialsDir = .ok entries) :
    partials ext source = (entries.filter (isPartial ext)).map Entry.path := by
  rw [partials, entriesOf_of_directory hmeta hwalk]

theorem partials_of_not_directory (hmeta : source.metadata partialsDir ≠ .ok .directory) :
    partials ext source = [] := by
  rw [partials, entriesOf_of_not_directory hmeta]
  rfl

theorem layoutFiles_eq_ok_iff {paths : List Path} :
    (layoutFiles glob id source ext).result = .ok paths
      ↔ Answers source layoutsDir
        ∧ (source.metadata layoutsDir = .ok .directory →
            ∃ entries, source.list layoutsDir = .ok entries)
        ∧ paths = layouts glob ext source := by
  unfold layoutFiles
  rw [traced_bind_eq_ok]
  constructor
  · rintro ⟨isDir, hisDir, hrest⟩
    obtain ⟨hanswers, hdir⟩ := hasDirectory_eq_ok_iff.1 hisDir
    refine ⟨hanswers, ?_⟩
    split at hrest
    · rename_i hyes
      obtain ⟨entries, hentries, hpaths⟩ := traced_bind_eq_ok.1 hrest
      have hlist : source.list layoutsDir = .ok entries := mapError_eq_ok.1 hentries
      rw [layouts_of_list (hdir.1 hyes) hlist]
      exact ⟨fun _ => ⟨entries, hlist⟩, (Except.ok.inj hpaths).symm⟩
    · rename_i hno
      have hmeta : source.metadata layoutsDir ≠ .ok .directory := fun h => hno (hdir.2 h)
      obtain ⟨_, _, hpaths⟩ := traced_bind_eq_ok.1 hrest
      rw [layouts_of_not_directory hmeta]
      exact ⟨fun h => absurd h hmeta, (Except.ok.inj hpaths).symm⟩
  · rintro ⟨hanswers, hlist, rfl⟩
    by_cases hmeta : source.metadata layoutsDir = .ok .directory
    · obtain ⟨entries, hentries⟩ := hlist hmeta
      refine ⟨true, hasDirectory_eq_ok_iff.2 ⟨hanswers, by simp [hmeta]⟩, ?_⟩
      rw [if_pos rfl, traced_bind_eq_ok, layouts_of_list hmeta hentries]
      exact ⟨entries, mapError_eq_ok.2 hentries, rfl⟩
    · refine ⟨false, hasDirectory_eq_ok_iff.2 ⟨hanswers, by simp [hmeta]⟩, ?_⟩
      rw [if_neg Bool.false_ne_true, traced_bind_eq_ok, layouts_of_not_directory hmeta]
      exact ⟨(), rfl, rfl⟩

/-! ## Loops that add templates -/

/-- If every step of a loop adds templates under a condition on its element, so does the loop. -/
theorem foldlM_adds {α ε : Type} {step : Group → α → Except ε Group} {ok : α → Prop}
    {trees : α → List Tree}
    (hstep : ∀ (g : Group) (a : α) (more : Group), g.functions = functions →
      (step g a = .ok more ↔ ok a ∧ more = (trees a).foldl Group.add g))
    (as : List α) {g more : Group} (hg : g.functions = functions) :
    as.foldlM step g = .ok more
      ↔ (∀ a ∈ as, ok a) ∧ more = (as.flatMap trees).foldl Group.add g := by
  induction as generalizing g with
  | nil =>
    rw [List.foldlM_nil, List.flatMap_nil, List.foldl_nil]
    refine ⟨fun h => ⟨fun a ha => absurd ha List.not_mem_nil, (Except.ok.inj h).symm⟩, fun h => ?_⟩
    rw [h.2]
    rfl
  | cons a rest ih =>
    rw [List.foldlM_cons, monad_bind_eq_ok, List.flatMap_cons, List.foldl_append,
      List.forall_mem_cons]
    constructor
    · rintro ⟨next, hnext, hrest⟩
      obtain ⟨ha, rfl⟩ := (hstep g a next hg).1 hnext
      obtain ⟨hall, hmore⟩ := (ih (by rw [Group.foldl_add_functions, hg])).1 hrest
      exact ⟨⟨ha, hall⟩, hmore⟩
    · rintro ⟨⟨ha, hall⟩, hmore⟩
      refine ⟨_, (hstep g a _ hg).2 ⟨ha, rfl⟩, ?_⟩
      exact (ih (by rw [Group.foldl_add_functions, hg])).2 ⟨hall, hmore⟩

theorem addFile_eq_ok_iff {g more : Group} {p : Path} (hg : g.functions = functions) :
    (addFile id source g p).result = .ok more
      ↔ (Group.parsedFile? functions source p).isSome = true
        ∧ more = (fileTrees functions source p).foldl Group.add g := by
  have hrun : (addFile id source g p).result = .ok more ↔ g.parseFile source p = .ok more := by
    unfold addFile
    rw [traced_bind_eq_ok]
    constructor
    · rintro ⟨next, hnext, hreported⟩
      rw [← Except.ok.inj hreported]
      exact mapError_eq_ok.1 hnext
    · intro h
      exact ⟨more, mapError_eq_ok.2 h, rfl⟩
  rw [hrun, Group.parseFile_eq_ok_iff, hg]
  unfold fileTrees
  cases Group.parsedFile? functions source p with
  | none => simp
  | some s => simp [Group.addSource_eq_foldl]

theorem addFiles_eq_ok_iff {paths : List Path} {g more : Group} (hg : g.functions = functions) :
    paths.foldlM (fun g q => (addFile id source g q).result) g = .ok more
      ↔ (∀ q ∈ paths, (Group.parsedFile? functions source q).isSome = true)
        ∧ more = (paths.flatMap (fileTrees functions source)).foldl Group.add g := by
  have hstep : ∀ (g : Group) (q : Path) (more : Group), g.functions = functions →
      ((addFile id source g q).result = .ok more
        ↔ (Group.parsedFile? functions source q).isSome = true
          ∧ more = (fileTrees functions source q).foldl Group.add g) :=
    fun _ _ _ h => addFile_eq_ok_iff h
  exact foldlM_adds hstep paths hg

/-- A partial is parsed as a list of files: the layouts, and then the partial. -/
theorem result_addPartial (paths : List Path) (g : Group) (p : Path) :
    (addPartial id source paths g p).result
      = (paths ++ [p]).foldlM (fun g q => (addFile id source g q).result) g := by
  unfold addPartial
  rw [Traced.result_bind, Traced.result_foldlM, List.foldlM_append]
  cases paths.foldlM (fun g q => (addFile id source g q).result) g with
  | error e => rfl
  | ok withLayouts =>
    show ((addFile id source withLayouts p) >>= _).result = _
    rw [Traced.result_bind]
    rfl

/-- Every partial of a source adds the templates of the layouts and its own. -/
theorem addPartials_eq_ok_iff {paths found : List Path} {g more : Group}
    (hg : g.functions = functions) :
    (found.foldlM (addPartial id source paths) g).result = .ok more
      ↔ (∀ q ∈ found.flatMap fun p => paths ++ [p],
            (Group.parsedFile? functions source q).isSome = true)
        ∧ more = ((found.flatMap fun p => paths ++ [p]).flatMap
            (fileTrees functions source)).foldl Group.add g := by
  have hstep : ∀ (g : Group) (p : Path) (more : Group), g.functions = functions →
      ((addPartial id source paths g p).result = .ok more
        ↔ (∀ q ∈ paths ++ [p], (Group.parsedFile? functions source q).isSome = true)
          ∧ more = ((paths ++ [p]).flatMap (fileTrees functions source)).foldl Group.add g) := by
    intro g p more h
    rw [result_addPartial]
    exact addFiles_eq_ok_iff h
  rw [Traced.result_foldlM, foldlM_adds hstep found hg, List.flatMap_assoc]
  refine and_congr ?_ Iff.rfl
  constructor
  · intro h q hq
    obtain ⟨p, hp, hmem⟩ := List.mem_flatMap.1 hq
    exact h p hp q hmem
  · intro h p hp q hq
    exact h q (List.mem_flatMap.2 ⟨p, hp, hq⟩)

/-! ## Sources -/

theorem parseOrder_of_not_directory (hmeta : source.metadata partialsDir ≠ .ok .directory) :
    parseOrder glob ext source = [] := by
  rw [parseOrder, partials_of_not_directory hmeta]
  rfl

theorem addSource_of_directory {g more : Group} (hg : g.functions = functions)
    (hmeta : source.metadata partialsDir = .ok .directory) :
    (addSource glob ext g id source).result = .ok more
      ↔ Loads glob functions ext source
        ∧ more = (sourceTrees glob functions ext source).foldl Group.add g := by
  have hpartials : Answers source partialsDir := by
    intro e he
    rw [hmeta] at he
    exact absurd he (by simp)
  have htrue : hasDirectory id source partialsDir = .ok true :=
    hasDirectory_eq_ok_iff.2 ⟨hpartials, by simp [hmeta]⟩
  unfold addSource
  rw [htrue]
  show (layoutFiles glob id source ext >>= _).result = _ ↔ _
  rw [traced_bind_eq_ok]
  constructor
  · rintro ⟨paths, hpaths, hfound⟩
    obtain ⟨hlayouts, hlist, rfl⟩ := layoutFiles_eq_ok_iff.1 hpaths
    obtain ⟨found, hbelow, hloop⟩ := traced_bind_eq_ok.1 hfound
    obtain ⟨entries, hwalk, hfiles⟩ := filesBelow_eq_ok_iff.1 hbelow
    have hpaths : found = partials ext source := hfiles.trans (partials_of_walk hmeta hwalk).symm
    obtain ⟨next, hnext, hreported⟩ := traced_bind_eq_ok.1 hloop
    have hmore : next = more := Except.ok.inj hreported
    rw [hpaths, hmore] at hnext
    obtain ⟨hall, hadded⟩ := (addPartials_eq_ok_iff hg).1 hnext
    exact ⟨⟨⟨hpartials, fun _ => ⟨entries, hwalk⟩, fun _ => hlayouts, fun _ => hlist⟩, hall⟩, hadded⟩
  · rintro ⟨⟨haccess, hall⟩, hmore⟩
    obtain ⟨entries, hwalk⟩ := haccess.walk hmeta
    refine ⟨layouts glob ext source,
      layoutFiles_eq_ok_iff.2 ⟨haccess.layouts hmeta, haccess.list hmeta, rfl⟩, ?_⟩
    rw [traced_bind_eq_ok]
    refine ⟨partials ext source,
      filesBelow_eq_ok_iff.2 ⟨entries, hwalk, partials_of_walk hmeta hwalk⟩, ?_⟩
    rw [traced_bind_eq_ok]
    exact ⟨more, (addPartials_eq_ok_iff hg).2 ⟨hall, hmore⟩, rfl⟩

theorem addSource_of_not_directory {g more : Group}
    (hmeta : source.metadata partialsDir ≠ .ok .directory) :
    (addSource glob ext g id source).result = .ok more
      ↔ Loads glob functions ext source
        ∧ more = (sourceTrees glob functions ext source).foldl Group.add g := by
  have hnone : parseOrder glob ext source = [] := parseOrder_of_not_directory hmeta
  have hloads : Loads glob functions ext source ↔ Answers source partialsDir := by
    refine ⟨fun h => h.1.partials, fun h => ⟨⟨h, fun hdir => absurd hdir hmeta,
      fun hdir => absurd hdir hmeta, fun hdir => absurd hdir hmeta⟩, fun p hp => ?_⟩⟩
    rw [hnone] at hp
    exact absurd hp List.not_mem_nil
  rw [hloads, sourceTrees, hnone]
  unfold addSource
  rw [traced_bind_eq_ok]
  constructor
  · rintro ⟨isDir, hisDir, hrest⟩
    obtain ⟨hanswers, hdir⟩ := hasDirectory_eq_ok_iff.1 hisDir
    rw [if_neg fun h => hmeta (hdir.1 h)] at hrest
    obtain ⟨_, _, hmore⟩ := traced_bind_eq_ok.1 hrest
    exact ⟨hanswers, (Except.ok.inj hmore).symm⟩
  · rintro ⟨hanswers, hmore⟩
    refine ⟨false, hasDirectory_eq_ok_iff.2 ⟨hanswers, by simp [hmeta]⟩, ?_⟩
    rw [if_neg Bool.false_ne_true, traced_bind_eq_ok, hmore]
    exact ⟨(), rfl, rfl⟩

/-- A source is added exactly if it can be loaded, and then all its templates are. -/
theorem addSource_eq_ok_iff {g more : Group} (hg : g.functions = functions) :
    (addSource glob ext g id source).result = .ok more
      ↔ Loads glob functions ext source
        ∧ more = (sourceTrees glob functions ext source).foldl Group.add g := by
  by_cases hmeta : source.metadata partialsDir = .ok .directory
  · exact addSource_of_directory hg hmeta
  · exact addSource_of_not_directory hmeta

/-! ## Builds -/

/-- The templates of all sources in the order in which they are added. -/
def allTrees (glob : Glob) (functions : FuncTable) (ext : String) (sources : Sources) : List Tree :=
  sources.entries.flatMap fun e => sourceTrees glob functions ext e.2

/-- **What a build makes.** It succeeds exactly if every source can be loaded, and then the shared
templates are those of all files of all sources, added in order. -/
theorem build_eq_ok_iff {sources : Sources} {base : Group} :
    (build glob sources functions ext).result = .ok base
      ↔ (∀ e ∈ sources.entries, Loads glob functions ext e.2)
        ∧ base = (allTrees glob functions ext sources).foldl Group.add
            { Group.named groupName with functions } := by
  have hstep : ∀ (g : Group) (e : SourceId × Source) (more : Group), g.functions = functions →
      ((addSource glob ext g e.1 e.2).result = .ok more
        ↔ Loads glob functions ext e.2
          ∧ more = (sourceTrees glob functions ext e.2).foldl Group.add g) :=
    fun _ _ _ h => addSource_eq_ok_iff h
  unfold build allTrees
  rw [Traced.result_foldlM]
  exact foldlM_adds hstep sources.entries rfl

/-- The shared templates call the functions of the site. -/
theorem functions_of_build {sources : Sources} {base : Group}
    (h : (build glob sources functions ext).result = .ok base) : base.functions = functions := by
  obtain ⟨_, hbase⟩ := build_eq_ok_iff.1 h
  rw [hbase, Group.foldl_add_functions]

/-- A name finds the last template with content among those of its name, or else the last of them. -/
theorem tree?_of_build {sources : Sources} {base : Group}
    (h : (build glob sources functions ext).result = .ok base) (name : String) :
    base.tree? name
      = Group.lastWord ((allTrees glob functions ext sources).filter fun t => t.name = name) := by
  obtain ⟨_, hbase⟩ := build_eq_ok_iff.1 h
  rw [hbase, Group.tree?_foldl_add_eq_lastWord]
  rfl

end Stencil.CommonBase
