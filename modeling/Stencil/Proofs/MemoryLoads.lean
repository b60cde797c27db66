/-
Loads from memory.

A tree in memory answers every question that a load asks: it has a directory or it has none, and what
its listings and walks find can be read. So a load from memory fails only because of what files say
or how they are called, and it fails with the first file that is no good: the shared files of all
sources come before the views of any, sources come in their order, and within a source layouts come
by name and in front of the partials, and partials and views in the order of a walk. The main
statement spells this out, failure by failure.
-/
import Stencil.Proofs.FirstFault
import Stencil.Proofs.MemoryTrees
import Stencil.Proofs.PageNames
import Stencil.Proofs.SharedLookup

set_option autoImplicit false

namespace Stencil

open Stencil.Runs

/-! ## Good files and bad files -/

namespace Group

/-- Says that a file can be read and is a template. -/
def Parses (functions : FuncTable) (source : Source) (p : Path) : Prop :=
  ∃ text parsed, source.read p = .ok text
    ∧ Parser.parse functions.defines (templateName p) text = .ok parsed

/-- Says that a file can be read and is no template, and why. -/
def FailsToParse (functions : FuncTable) (source : Source) (p : Path) (cause : ParseError) : Prop :=
  ∃ text, source.read p = .ok text
    ∧ Parser.parse functions.defines (templateName p) text = .error cause

variable {functions : FuncTable} {source : Source} {p : Path}

theorem fileFailure?_eq_none_iff : fileFailure? functions source p = none ↔ Parses functions source p := by
  unfold fileFailure? textFailure? Parses
  cases source.read p with
  | error e => simp
  | ok text => cases hparse : Parser.parse functions.defines (templateName p) text <;> simp [hparse]

theorem FailsToParse.not_parses {cause : ParseError} (h : FailsToParse functions source p cause) :
    ¬ Parses functions source p := by
  rintro ⟨text, parsed, hread, hparsed⟩
  obtain ⟨text', hread', hfails⟩ := h
  obtain rfl : text = text' := Except.ok.inj (hread.symm.trans hread')
  rw [hparsed] at hfails
  cases hfails

/-- A file that can be read fails because it is no template. -/
theorem exists_failsToParse {e : TemplateError} (hread : ∃ text, source.read p = .ok text)
    (h : fileFailure? functions source p = some e) :
    ∃ cause, FailsToParse functions source p cause ∧ e = .parse (templateName p) cause := by
  obtain ⟨text, htext⟩ := hread
  unfold fileFailure? textFailure? at h
  rw [htext] at h
  cases hparse : Parser.parse functions.defines (templateName p) text with
  | ok parsed =>
    simp only [hparse] at h
    exact absurd h.symm (Option.some_ne_none e)
  | error cause =>
    simp only [hparse] at h
    exact ⟨cause, ⟨text, htext, hparse⟩, (Option.some.inj h).symm⟩

end Group

namespace CommonBase

/-- Says that all shared files of a source are templates. Layouts count only beside partials. -/
structure AllParse (glob : Glob) (functions : FuncTable) (ext : String) (source : Source) : Prop where
  partials : ∀ p ∈ partials ext source, Group.Parses functions source p
  layouts : CommonBase.partials ext source ≠ [] →
    ∀ p ∈ layouts glob ext source, Group.Parses functions source p

/-- The first shared file of a source that is no template: a layout, all layouts with a lesser name
being templates, or else a partial, all those before it in the walk being templates. -/
inductive FirstBad (glob : Glob) (functions : FuncTable) (ext : String) (source : Source) :
    Path → ParseError → Prop where
  | amongLayouts {e : Entry} {cause : ParseError} :
      partials ext source ≠ [] → e ∈ layoutEntries glob ext source →
      Group.FailsToParse functions source e.path cause →
      (∀ e' ∈ layoutEntries glob ext source, SortKey.before e'.fileName e.fileName = true →
        Group.Parses functions source e'.path) →
      FirstBad glob functions ext source e.path cause
  | amongPartials {front rest : List Path} {p : Path} {cause : ParseError} :
      (∀ q ∈ layouts glob ext source, Group.Parses functions source q) →
      partials ext source = front ++ p :: rest →
      (∀ q ∈ front, Group.Parses functions source q) →
      Group.FailsToParse functions source p cause →
      FirstBad glob functions ext source p cause

end CommonBase

namespace Pages

/-- Says that a view makes a page: it is a template, and something is left of its name. -/
def Compiles (functions : FuncTable) (ext : String) (source : Source) (p : Path) : Prop :=
  Group.Parses functions source p ∧ p.fileName? ≠ some ext

/-- The first view of a source that makes no page, all those before it in the walk making one. Its
name is looked at before its text. -/
inductive FirstBad (functions : FuncTable) (ext : String) (source : Source) :
    Path → LoadCause → Prop where
  | unnamed {front rest : List Path} {p : Path} :
      views ext source = front ++ p :: rest → (∀ q ∈ front, Compiles functions ext source q) →
      p.fileName? = some ext →
      FirstBad functions ext source p .unnamedPage
  | parse {front rest : List Path} {p : Path} {cause : ParseError} :
      views ext source = front ++ p :: rest → (∀ q ∈ front, Compiles functions ext source q) →
      p.fileName? ≠ some ext → Group.FailsToParse functions source p cause →
      FirstBad functions ext source p (.parse (.parse (Group.templateName p) cause))

end Pages

/-! ## Sources that never refuse -/

/-- Says that a source answers all that a load asks it, so that only its files can be bad. -/
structure Source.Unfailing (glob : Glob) (ext : String) (source : Source) : Prop where
  shared : CommonBase.Accessible source
  views : Pages.Accessible source
  byName : source.ListsByName
  readLayouts : ∀ p ∈ CommonBase.layouts glob ext source, ∃ text, source.read p = .ok text
  readPartials : ∀ p ∈ CommonBase.partials ext source, ∃ text, source.read p = .ok text
  readViews : ∀ p ∈ Pages.views ext source, ∃ text, source.read p = .ok text
  unnamed : ∀ p ∈ Pages.views ext source, ∀ id : SourceId,
    PageId.ofPath? id Pages.viewsDir p ext = none ↔ p.fileName? = some ext

namespace CommonBase

variable {glob : Glob} {functions : FuncTable} {ext : String} {id : SourceId} {source : Source}

/-- Layouts come first, and it does not matter how often they come again. -/
theorem findSome?_parseOrder_eq {β : Type} (f : Path → Option β)
    (hpartials : partials ext source ≠ []) :
    (parseOrder glob ext source).findSome? f
      = ((layouts glob ext source).findSome? f).or ((partials ext source).findSome? f) := by
  have hone : ∀ p, (layouts glob ext source ++ [p]).findSome? f
      = ((layouts glob ext source).findSome? f).or (f p) := by
    intro p
    rw [List.findSome?_append, List.findSome?_singleton]
  rw [parseOrder, findSome?_flatMap, funext hone]
  cases (layouts glob ext source).findSome? f with
  | none =>
    rw [Option.none_or]
    rfl
  | some b =>
    obtain ⟨first, rest, hcons⟩ := List.exists_cons_of_ne_nil hpartials
    rw [hcons]
    rfl

theorem findSome?_parseOrder_of_nil {β : Type} (f : Path → Option β)
    (hpartials : partials ext source = []) : (parseOrder glob ext source).findSome? f = none := by
  rw [parseOrder, hpartials]
  rfl

theorem fileFailure?_eq_none_iff {p : Path} :
    fileFailure? functions id source p = none ↔ Group.Parses functions source p := by
  rw [fileFailure?, Option.map_eq_none_iff, Group.fileFailure?_eq_none_iff]

theorem exists_failsToParse {p : Path} {e : LoadError} (hread : ∃ text, source.read p = .ok text)
    (h : fileFailure? functions id source p = some e) :
    ∃ cause, Group.FailsToParse functions source p cause
      ∧ e = ⟨id, p, .parse (.parse (Group.templateName p) cause)⟩ := by
  obtain ⟨failure, hfailure, rfl⟩ := Option.map_eq_some_iff.1 h
  obtain ⟨cause, hcause, rfl⟩ := Group.exists_failsToParse hread hfailure
  exact ⟨cause, hcause, rfl⟩

theorem findSome?_parseOrder_eq_none_iff :
    (parseOrder glob ext source).findSome? (fileFailure? functions id source) = none
      ↔ AllParse glob functions ext source := by
  rw [List.findSome?_eq_none_iff]
  constructor
  · intro h
    have hall : ∀ p ∈ parseOrder glob ext source, Group.Parses functions source p :=
      fun p hp => fileFailure?_eq_none_iff.1 (h p hp)
    refine ⟨fun p hp => ?_, fun hne p hp => ?_⟩
    · exact hall p (mem_parseOrder_iff.2 ⟨List.ne_nil_of_mem hp, List.mem_append_right _ hp⟩)
    · exact hall p (mem_parseOrder_iff.2 ⟨hne, List.mem_append_left _ hp⟩)
  · intro h p hp
    obtain ⟨hne, hfile⟩ := mem_parseOrder_iff.1 hp
    rw [fileFailure?_eq_none_iff]
    rcases List.mem_append.1 hfile with hlayout | hpartial
    · exact h.layouts hne p hlayout
    · exact h.partials p hpartial

theorem firstBad_of_layouts (hsource : source.Unfailing glob ext)
    (hpartials : partials ext source ≠ [])
    {e : LoadError}
    (h : (layouts glob ext source).findSome? (fileFailure? functions id source) = some e) :
    ∃ p cause, FirstBad glob functions ext source p cause
      ∧ e = ⟨id, p, .parse (.parse (Group.templateName p) cause)⟩ := by
  rw [layouts, List.findSome?_map] at h
  obtain ⟨front, entry, rest, hsplit, hfails, hfront⟩ := List.findSome?_eq_some_iff.1 h
  have hmem : entry ∈ layoutEntries glob ext source := hsplit ▸ List.mem_append_cons_self
  have hread := hsource.readLayouts entry.path (List.mem_map_of_mem hmem)
  obtain ⟨cause, hcause, rfl⟩ := exists_failsToParse hread hfails
  refine ⟨entry.path, cause, .amongLayouts hpartials hmem hcause fun e' he' hbefore => ?_, rfl⟩
  -- Layouts stand in the order of their names, so one with a lesser name is among those in front.
  have hsorted : (layoutEntries glob ext source).Pairwise fun a b =>
      SortKey.before a.fileName b.fileName = true := layoutEntries_sorted hsource.byName
  rw [hsplit] at hsorted he'
  have hahead : e' ∈ front := SortKey.mem_front_of_before Entry.fileName hsorted he' hbefore
  exact fileFailure?_eq_none_iff.1 (hfront e' hahead)

/-- The failure of the shared files of a source is that of the first bad one. -/
theorem firstBad_of_parseOrder (hsource : source.Unfailing glob ext) {e : LoadError}
    (h : (parseOrder glob ext source).findSome? (fileFailure? functions id source) = some e) :
    ∃ p cause, FirstBad glob functions ext source p cause
      ∧ e = ⟨id, p, .parse (.parse (Group.templateName p) cause)⟩ := by
  by_cases hpartials : partials ext source = []
  · rw [findSome?_parseOrder_of_nil _ hpartials] at h
    exact absurd h.symm (Option.some_ne_none e)
  · rw [findSome?_parseOrder_eq _ hpartials] at h
    rcases Option.or_eq_some_iff.1 h with hlayouts | ⟨hnone, hfound⟩
    · exact firstBad_of_layouts hsource hpartials hlayouts
    · obtain ⟨front, p, rest, hsplit, hfails, hfront⟩ := List.findSome?_eq_some_iff.1 hfound
      have hmem : p ∈ partials ext source := hsplit ▸ List.mem_append_cons_self
      obtain ⟨cause, hcause, rfl⟩ := exists_failsToParse (hsource.readPartials p hmem) hfails
      refine ⟨p, cause, .amongPartials (fun q hq => ?_) hsplit (fun q hq => ?_) hcause, rfl⟩
      · exact fileFailure?_eq_none_iff.1 (List.findSome?_eq_none_iff.1 hnone q hq)
      · exact fileFailure?_eq_none_iff.1 (hfront q hq)

end CommonBase

namespace Pages

variable {glob : Glob} {functions : FuncTable} {ext : String} {id : SourceId} {source : Source}

/-- A view that has an identifier has more in its name than the extension. -/
theorem fileName?_ne_of_ofPath? (hsource : source.Unfailing glob ext) {p : Path} {k : String}
    (hp : p ∈ views ext source) (hid : PageId.ofPath? id viewsDir p ext = some k) :
    p.fileName? ≠ some ext := by
  intro heq
  rw [(hsource.unnamed p hp id).2 heq] at hid
  exact Option.some_ne_none k hid.symm

theorem viewFailure?_eq_none_iff (hsource : source.Unfailing glob ext) {p : Path}
    (hp : p ∈ views ext source) :
    viewFailure? functions ext id source p = none ↔ Compiles functions ext source p := by
  unfold viewFailure? Compiles
  cases hid : PageId.ofPath? id viewsDir p ext with
  | none => simp [(hsource.unnamed p hp id).1 hid]
  | some k =>
    have hnamed : p.fileName? ≠ some ext := fileName?_ne_of_ofPath? hsource hp hid
    show CommonBase.fileFailure? functions id source p = none ↔ _
    rw [CommonBase.fileFailure?_eq_none_iff]
    exact ⟨fun h => ⟨h, hnamed⟩, fun h => h.1⟩

theorem findSome?_views_eq_none_iff (hsource : source.Unfailing glob ext) :
    (views ext source).findSome? (viewFailure? functions ext id source) = none
      ↔ ∀ p ∈ views ext source, Compiles functions ext source p := by
  rw [List.findSome?_eq_none_iff]
  exact forall₂_congr fun p hp => viewFailure?_eq_none_iff hsource hp

/-- The failure of the views of a source is that of the first bad one. -/
theorem firstBad_of_views (hsource : source.Unfailing glob ext) {e : LoadError}
    (h : (views ext source).findSome? (viewFailure? functions ext id source) = some e) :
    ∃ p cause, FirstBad functions ext source p cause ∧ e = ⟨id, p, cause⟩ := by
  obtain ⟨front, p, rest, hsplit, hfails, hfront⟩ := List.findSome?_eq_some_iff.1 h
  have hmem : p ∈ views ext source := hsplit ▸ List.mem_append_cons_self
  have hgood : ∀ q ∈ front, Compiles functions ext source q := by
    intro q hq
    refine (viewFailure?_eq_none_iff hsource ?_).1 (hfront q hq)
    rw [hsplit]
    exact List.mem_append_left _ hq
  unfold viewFailure? at hfails
  cases hid : PageId.ofPath? id viewsDir p ext with
  | none =>
    rw [hid] at hfails
    have hunnamed : p.fileName? = some ext := (hsource.unnamed p hmem id).1 hid
    exact ⟨p, .unnamedPage, .unnamed hsplit hgood hunnamed, (Option.some.inj hfails).symm⟩
  | some k =>
    rw [hid] at hfails
    have hnamed : p.fileName? ≠ some ext := fileName?_ne_of_ofPath? hsource hmem hid
    obtain ⟨cause, hcause, rfl⟩ :=
      CommonBase.exists_failsToParse (hsource.readViews p hmem) hfails
    exact ⟨p, _, .parse hsplit hgood hnamed hcause, rfl⟩

end Pages

/-! ## All sources -/

/-- What the first entries of a table say is what its least key says. -/
theorem exists_least_of_findSome? {κ α β : Type} [SortKey κ] [DecidableEq κ] {t : Table κ α}
    {f : κ × α → Option β} {b : β} (h : t.entries.findSome? f = some b) :
    ∃ k a, t.get? k = some a ∧ f (k, a) = some b
      ∧ ∀ k' a', t.get? k' = some a' → SortKey.before k' k = true → f (k', a') = none := by
  obtain ⟨earlier, ⟨k, a⟩, later, hsplit, hfound, hnone⟩ := List.findSome?_eq_some_iff.1 h
  refine ⟨k, a, Table.get?_of_mem ?_, hfound, fun k' a' hget hbefore => ?_⟩
  · exact hsplit ▸ List.mem_append_cons_self
  · have hmem : (k', a') ∈ t.entries := Entries.mem_keys_of_get? hget
    have hsorted := t.sorted
    rw [hsplit] at hmem hsorted
    exact hnone (k', a') (SortKey.mem_front_of_before Prod.fst hsorted hmem hbefore)

/-- What holds for the entries of a table holds for what its keys find. -/
theorem forall_entries_iff {κ α : Type} [SortKey κ] [DecidableEq κ] {t : Table κ α}
    {good : κ → α → Prop} :
    (∀ e ∈ t.entries, good e.1 e.2) ↔ ∀ k a, t.get? k = some a → good k a := by
  constructor
  · exact fun h k a hget => h (k, a) (Entries.mem_keys_of_get? hget)
  · exact fun h e he => h e.1 e.2 (Table.get?_of_mem he)

namespace Site

variable {glob : Glob} {s : Site}

/-- Says that every source of a site has good shared files. -/
def SharedParse (s : Site) (glob : Glob) : Prop :=
  ∀ id source, s.sources.get? id = some source →
    CommonBase.AllParse glob s.functions s.extension source

/-- Says of a failure that it is that of the first bad shared file in the first source with one. -/
def FirstShared (s : Site) (glob : Glob) (e : SiteError) : Prop :=
  ∃ id source p cause, s.sources.get? id = some source
    ∧ (∀ id' source', s.sources.get? id' = some source' → SortKey.before id' id = true →
        CommonBase.AllParse glob s.functions s.extension source')
    ∧ CommonBase.FirstBad glob s.functions s.extension source p cause
    ∧ e = .common ⟨id, p, .parse (.parse (Group.templateName p) cause)⟩

/-- Says of a failure that it is that of the first bad view in the first source with one. -/
def FirstView (s : Site) (e : SiteError) : Prop :=
  ∃ id source p cause, s.sources.get? id = some source
    ∧ (∀ id' source', s.sources.get? id' = some source' → SortKey.before id' id = true →
        ∀ q ∈ Pages.views s.extension source', Pages.Compiles s.functions s.extension source' q)
    ∧ Pages.FirstBad s.functions s.extension source p cause
    ∧ e = .pages ⟨id, p, cause⟩

theorem sharedParse_iff :
    (s.sources.entries.findSome? fun e => (CommonBase.parseOrder glob s.extension e.2).findSome?
        (CommonBase.fileFailure? s.functions e.1 e.2)) = none
      ↔ s.SharedParse glob := by
  rw [List.findSome?_eq_none_iff, SharedParse]
  have hone : ∀ e : SourceId × Source,
      (CommonBase.parseOrder glob s.extension e.2).findSome?
          (CommonBase.fileFailure? s.functions e.1 e.2) = none
        ↔ CommonBase.AllParse glob s.functions s.extension e.2 :=
    fun e => CommonBase.findSome?_parseOrder_eq_none_iff
  rw [← forall_entries_iff]
  exact forall₂_congr fun e _ => hone e

theorem viewsCompile_iff
    (h : ∀ id source, s.sources.get? id = some source → source.Unfailing glob s.extension) :
    (s.sources.entries.findSome? fun e => (Pages.views s.extension e.2).findSome?
        (Pages.viewFailure? s.functions s.extension e.1 e.2)) = none
      ↔ ∀ id source, s.sources.get? id = some source →
          ∀ p ∈ Pages.views s.extension source, Pages.Compiles s.functions s.extension source p := by
  rw [List.findSome?_eq_none_iff, ← forall_entries_iff]
  exact forall₂_congr fun e he =>
    Pages.findSome?_views_eq_none_iff (forall_entries_iff.2 h e he)

/-- A load from sources that never refuse fails with the first bad file. -/
theorem load_of_unfailing
    (h : ∀ id source, s.sources.get? id = some source → source.Unfailing glob s.extension) :
    ((∃ loaded, (s.load glob).result = .ok loaded)
        ↔ s.SharedParse glob ∧ ∀ id source, s.sources.get? id = some source →
          ∀ p ∈ Pages.views s.extension source, Pages.Compiles s.functions s.extension source p)
      ∧ ∀ e, (s.load glob).result = .error e →
          s.FirstShared glob e ∨ s.SharedParse glob ∧ s.FirstView e := by
  have hentries := forall_entries_iff.2 h
  have hends := @ends_load glob s (fun e he => (hentries e he).shared) fun e he =>
    (hentries e he).views
  refine ⟨?_, fun e he => ?_⟩
  · rw [hends.exists_ok_iff, failure?, Option.or_eq_none_iff, Option.map_eq_none_iff,
      Option.map_eq_none_iff, sharedParse_iff, viewsCompile_iff h]
  · rcases Option.or_eq_some_iff.1 (hends.eq_error_iff.1 he) with hshared | ⟨hnone, hviews⟩
    · obtain ⟨failure, hfailure, rfl⟩ := Option.map_eq_some_iff.1 hshared
      obtain ⟨id, source, hget, hfound, hearlier⟩ := exists_least_of_findSome? hfailure
      obtain ⟨p, cause, hfirst, rfl⟩ := CommonBase.firstBad_of_parseOrder (h id source hget) hfound
      refine Or.inl ⟨id, source, p, cause, hget, fun id' source' hget' hbefore => ?_, hfirst, rfl⟩
      exact CommonBase.findSome?_parseOrder_eq_none_iff.1 (hearlier id' source' hget' hbefore)
    · obtain ⟨failure, hfailure, rfl⟩ := Option.map_eq_some_iff.1 hviews
      obtain ⟨id, source, hget, hfound, hearlier⟩ := exists_least_of_findSome? hfailure
      obtain ⟨p, cause, hfirst, rfl⟩ := Pages.firstBad_of_views (h id source hget) hfound
      refine Or.inr ⟨sharedParse_iff.1 (Option.map_eq_none_iff.1 hnone), id, source, p, cause, hget,
        fun id' source' hget' hbefore => ?_, hfirst, rfl⟩
      exact (Pages.findSome?_views_eq_none_iff (h id' source' hget')).1
        (hearlier id' source' hget' hbefore)

end Site

/-! ## Memory -/

namespace Memory

variable {glob : Glob} {m : Memory} {ext : String} {dir : Location} {top : Path}

/-- Says of a path that it is that of a location of proper names. -/
structure Reads (top : Path) (dir : Location) : Prop where
  path : top = dir.path
  proper : dir.Proper

theorem Reads.answers (htop : Reads top dir) : CommonBase.Answers m.source top := by
  intro e he
  rw [htop.path] at he
  exact isNotFound_of_metadata htop.proper he

theorem Reads.list (htop : Reads top dir) (hmeta : m.source.metadata top = .ok .directory) :
    m.source.list top = .ok (m.entriesAt dir) := by
  rw [htop.path] at hmeta ⊢
  exact list_path htop.proper (isDirectory_of_metadata htop.proper hmeta)

theorem Reads.exists_walk (htop : Reads top dir) (h : m.Named)
    (hmeta : m.source.metadata top = .ok .directory) :
    ∃ entries, m.source.walk top = .ok entries ∧ ∀ e ∈ entries, m.Holds dir e := by
  rw [htop.path] at hmeta ⊢
  exact h.exists_walk htop.proper (isDirectory_of_metadata htop.proper hmeta)

/-- What a load takes from a walk is in the tree. -/
theorem Reads.holds_of_walk (htop : Reads top dir) (h : m.Named) {e : Entry}
    (he : e ∈ CommonBase.entriesOf m.source top m.source.walk) : m.Holds dir e := by
  by_cases hmeta : m.source.metadata top = .ok .directory
  · obtain ⟨entries, hwalk, hholds⟩ := htop.exists_walk h hmeta
    rw [CommonBase.entriesOf_of_directory hmeta hwalk] at he
    exact hholds e he
  · rw [CommonBase.entriesOf_of_not_directory hmeta] at he
    exact absurd he List.not_mem_nil

/-- What a load takes from a listing is in the tree. -/
theorem Reads.holds_of_list (htop : Reads top dir) (h : m.Named) {e : Entry}
    (he : e ∈ CommonBase.entriesOf m.source top m.source.list) : m.Holds dir e := by
  by_cases hmeta : m.source.metadata top = .ok .directory
  · rw [CommonBase.entriesOf_of_directory hmeta (htop.list hmeta)] at he
    exact h.holds he
  · rw [CommonBase.entriesOf_of_not_directory hmeta] at he
    exact absurd he List.not_mem_nil

/-- Every template file that a walk finds is a file of the tree, and its name ends in the
extension. -/
theorem Reads.holds_of_isPartial (htop : Reads top dir) (h : m.Named) {p : Path}
    (hp : p ∈ ((CommonBase.entriesOf m.source top m.source.walk).filter
      (CommonBase.isPartial ext)).map Entry.path) :
    ∃ e, p = e.path ∧ m.Holds dir e ∧ e.kind = .file ∧ Extension.endsPath ext e.path = true := by
  obtain ⟨e, he, rfl⟩ := List.mem_map.1 hp
  obtain ⟨hmem, hpartial⟩ := List.mem_filter.1 he
  obtain ⟨hkind, hends⟩ := Bool.and_eq_true_iff.1 hpartial
  exact ⟨e, rfl, htop.holds_of_walk h hmem, of_decide_eq_true hkind, hends⟩

/-- A file below a directory has no identifier there exactly if it is called by the extension only. -/
theorem Reads.ofPath?_eq_none_iff (htop : Reads top dir) {e : Entry} (h : m.Holds dir e)
    (hends : Extension.endsPath ext e.path = true) (id : SourceId) :
    PageId.ofPath? id top e.path ext = none ↔ e.path.fileName? = some ext := by
  obtain ⟨names, hne, hlocation⟩ := h.below
  have hproper : Location.Proper (dir ++ names) := hlocation ▸ h.proper
  have hlast : names.getLast? = some (names.getLast hne) := List.getLast?_eq_some_getLast hne
  have hname : e.path.fileName? = some (names.getLast hne) := by
    show e.location.path.fileName? = _
    rw [h.proper.fileName?_path, hlocation, List.getLast?_append, hlast, Option.some_or]
  unfold Extension.endsPath at hends
  rw [hname] at hends ⊢
  have hpath : e.path = Location.path (dir ++ names) := congrArg Location.path hlocation
  rw [htop.path, hpath, PageId.ofPath?_eq_none_iff hproper hlast hends, Option.some.injEq]

/-- The three directories of a source are read by their names. -/
theorem reads_directory {name : String} (h : name ∈ ["partials", "layouts", "views"]) :
    Reads ⟨name⟩ [name] := by
  have hall : ∀ n ∈ ["partials", "layouts", "views"],
      '/' ∉ n.toList ∧ n ≠ "" ∧ n ≠ "." ∧ n ≠ ".." := by decide
  obtain ⟨hslash, hempty, hcurrent, hparent⟩ := hall name h
  refine ⟨?_, fun n hn => ?_⟩
  · rw [Location.path, String.intercalate_singleton]
  · rw [List.mem_singleton.1 hn]
    exact ⟨hslash, hempty, hcurrent, hparent⟩

/-- A tree in memory answers all that a load asks. -/
theorem Named.unfailing (h : m.Named) (ext : String) : m.source.Unfailing glob ext := by
  have hpartials : Reads CommonBase.partialsDir ["partials"] := reads_directory (by simp)
  have hlayouts : Reads CommonBase.layoutsDir ["layouts"] := reads_directory (by simp)
  have hviews : Reads Pages.viewsDir ["views"] := reads_directory (by simp)
  have hshared : CommonBase.Accessible m.source := by
    refine ⟨hpartials.answers, fun hmeta => ?_, fun _ => hlayouts.answers,
      fun _ hmeta => ⟨_, hlayouts.list hmeta⟩⟩
    obtain ⟨entries, hwalk, _⟩ := hpartials.exists_walk h hmeta
    exact ⟨entries, hwalk⟩
  have hpages : Pages.Accessible m.source := by
    refine ⟨hviews.answers, fun hmeta => ?_⟩
    obtain ⟨entries, hwalk, _⟩ := hviews.exists_walk h hmeta
    exact ⟨entries, hwalk⟩
  refine ⟨hshared, hpages, m.listsByName, fun p hp => ?_, fun p hp => ?_, fun p hp => ?_,
    fun p hp id => ?_⟩
  · obtain ⟨e, he, rfl⟩ := List.mem_map.1 hp
    obtain ⟨hmem, hlayout⟩ := List.mem_filter.1 he
    have hfile : e.kind = .file := of_decide_eq_true (Bool.and_eq_true_iff.1 hlayout).1
    exact (hlayouts.holds_of_list h hmem).exists_read hfile
  · obtain ⟨e, rfl, hholds, hfile, _⟩ := hpartials.holds_of_isPartial h hp
    exact hholds.exists_read hfile
  · obtain ⟨e, rfl, hholds, hfile, _⟩ := hviews.holds_of_isPartial h hp
    exact hholds.exists_read hfile
  · obtain ⟨e, rfl, hholds, _, hends⟩ := hviews.holds_of_isPartial h hp
    exact hviews.ofPath?_eq_none_iff hholds hends id

end Memory

namespace Site

/-- **What a load from memory fails with.** Let all sources of a site be trees in memory, made by any
changes. A load succeeds exactly if all partials are templates, all layouts beside partials are, and
all views are and have more in their names than the extension. If it fails, then with the first bad
shared file of the first source that has one: the first bad layout by name or else the first bad
partial of the walk; and only if there is none, with the first bad view of the first source that has
one, because of its name or else because of its text. What has been parsed before a file has no part
in this: the functions alone decide whether it is parsed, and how it fails. -/
theorem load_inMemory {glob : Glob} {s : Site}
    (h : ∀ id source, s.sources.get? id = some source →
      ∃ changes, source = (Memory.ofChanges changes).source) :
    ((∃ loaded, (s.load glob).result = .ok loaded)
        ↔ s.SharedParse glob ∧ ∀ id source, s.sources.get? id = some source →
          ∀ p ∈ Pages.views s.extension source, Pages.Compiles s.functions s.extension source p)
      ∧ (∀ e, (s.load glob).result = .error e →
          s.FirstShared glob e ∨ s.SharedParse glob ∧ s.FirstView e)
      ∧ ∀ (g g' : Group) (source : Source) (p : Path), g.functions = g'.functions →
          ((∃ more, g.parseFile source p = .ok more) ↔ ∃ more, g'.parseFile source p = .ok more)
            ∧ ∀ e, g.parseFile source p = .error e ↔ g'.parseFile source p = .error e := by
  have hunfailing : ∀ id source, s.sources.get? id = some source →
      source.Unfailing glob s.extension := by
    intro id source hget
    obtain ⟨changes, rfl⟩ := h id source hget
    exact (Memory.named_ofChanges changes).unfailing s.extension
  obtain ⟨hok, herror⟩ := load_of_unfailing hunfailing
  refine ⟨hok, herror, fun g g' source p hsame => ?_⟩
  have hg := Group.ends_parseFile (g := g) hsame source p
  have hg' := Group.ends_parseFile (g := g') rfl source p
  exact ⟨by rw [hg.exists_ok_iff, hg'.exists_ok_iff],
    fun e => by rw [hg.eq_error_iff, hg'.eq_error_iff]⟩

/-- A tree with a bad layout, a bad partial and a view without a name. -/
def untidy : Memory :=
  .ofChanges [.addFile ⟨"views/.html"⟩ "", .addFile ⟨"partials/nav.html"⟩ "\x7b\x7bif",
    .addFile ⟨"layouts/base.html"⟩ "\x7b\x7bend", .addFile ⟨"layouts/all.html"⟩ "fine"]

/-- A site with the untidy tree only. -/
def untidySite : Site :=
  ⟨".html", Table.ofList [(.root, untidy.source)], Table.empty, Table.empty⟩

/-- Of all that is bad in the untidy tree, the layout is reported. -/
theorem load_inMemory_untidySite :
    (∀ id source, untidySite.sources.get? id = some source →
        ∃ changes, source = (Memory.ofChanges changes).source)
      ∧ ∃ cause, (untidySite.load .plain).result
        = .error (.common ⟨.root, ⟨"layouts/base.html"⟩, .parse (.parse "base.html" cause)⟩) := by
  have honly : ∀ id source, untidySite.sources.get? id = some source →
      id = .root ∧ source = untidy.source := by
    intro id source hget
    exact Prod.mk.inj (List.mem_singleton.1 (Entries.mem_keys_of_get? hget))
  have hmemory : ∀ id source, untidySite.sources.get? id = some source →
      ∃ changes, source = (Memory.ofChanges changes).source :=
    fun id source hget => ⟨_, (honly id source hget).2⟩
  have hpartials : CommonBase.partials ".html" untidy.source = [⟨"partials/nav.html"⟩] := by cbv
  have hlisted : untidy.source.list CommonBase.layoutsDir
      = .ok [⟨["layouts", "all.html"], .file⟩, ⟨["layouts", "base.html"], .file⟩] := by cbv
  have hlayouts : CommonBase.layouts .plain ".html" untidy.source
      = [⟨"layouts/all.html"⟩, ⟨"layouts/base.html"⟩] := by
    rw [CommonBase.layouts_of_list (by cbv) hlisted]
    decide +kernel
  have hall : (Group.fileFailure? untidySite.functions untidy.source ⟨"layouts/all.html"⟩).isNone
      = true := by decide +kernel
  have hgood : Group.Parses untidySite.functions untidy.source ⟨"layouts/all.html"⟩ :=
    Group.fileFailure?_eq_none_iff.1 (Option.isNone_iff_eq_none.1 hall)
  have hbase : (Group.fileFailure? untidySite.functions untidy.source ⟨"layouts/base.html"⟩).isSome
      = true := by decide +kernel
  have hname : Group.templateName ⟨"layouts/base.html"⟩ = "base.html" := by decide +kernel
  have hbad : ¬ Group.Parses untidySite.functions untidy.source ⟨"layouts/base.html"⟩ := by
    intro h
    rw [Group.fileFailure?_eq_none_iff.2 h] at hbase
    exact absurd hbase Bool.false_ne_true
  have hne : CommonBase.partials ".html" untidy.source ≠ [] := by simp [hpartials]
  have hmem : (⟨"layouts/base.html"⟩ : Path) ∈ CommonBase.layouts .plain ".html" untidy.source := by
    simp [hlayouts]
  have hshared : ¬ untidySite.SharedParse .plain :=
    fun h => hbad ((h .root untidy.source rfl).layouts hne _ hmem)
  obtain ⟨hok, herror, _⟩ := load_inMemory hmemory
  refine ⟨hmemory, ?_⟩
  cases hload : (untidySite.load .plain).result with
  | ok loaded => exact absurd (hok.1 ⟨loaded, hload⟩).1 hshared
  | error e =>
    obtain ⟨id, source, p, cause, hget, _, hfirst, rfl⟩ :=
      (herror e hload).resolve_right fun h => hshared h.1
    obtain ⟨rfl, rfl⟩ := honly id source hget
    refine ⟨cause, ?_⟩
    cases hfirst with
    | amongPartials hparse => exact absurd (hparse _ hmem) hbad
    | @amongLayouts entry _ _ hentry hfails _ =>
      have hpath : entry.path ∈ CommonBase.layouts .plain ".html" untidy.source :=
        List.mem_map_of_mem hentry
      rw [hlayouts] at hpath
      rcases List.mem_cons.1 hpath with heq | hpath
      · exact absurd hgood (heq ▸ hfails.not_parses)
      · rw [List.mem_singleton.1 hpath, hname]

end Site

end Stencil
