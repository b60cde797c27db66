/-
The first failure of a load.

Whether a file can be parsed depends on the functions and on its text, and not on what has been
parsed before it. So the failure that ends a load can be found without loading: it is the first one
that any of the files has, in the order in which the files are parsed, all shared files of all sources
before any view. This is put together from the inside outwards, one loop after the other, for sources
that answer every question about their directories and files.
-/
import Stencil.Proofs.SharedFiles
import Stencil.Site.Registry

set_option autoImplicit false

namespace Stencil

/-! ## How computations end -/

namespace Runs

variable {ε ε' α β : Type}

/-- Says how a computation ends: with a failure if one is given, and otherwise with a value that has
a property. -/
def Ends (failure : Option ε) (good : α → Prop) (r : Except ε α) : Prop :=
  match failure with
  | some e => r = .error e
  | none => ∃ a, r = .ok a ∧ good a

namespace Ends

variable {failure failure' : Option ε} {good : α → Prop} {r : Except ε α}

theorem ok {a : α} (h : good a) : Ends none good (.ok a : Except ε α) := ⟨a, rfl, h⟩

theorem eq_error_iff (h : Ends failure good r) {e : ε} : r = .error e ↔ failure = some e := by
  cases failure with
  | some e' =>
    have hr : r = .error e' := h
    rw [hr, Except.error.injEq, Option.some.injEq]
  | none =>
    obtain ⟨a, rfl, _⟩ := h
    simp

theorem exists_ok_iff (h : Ends failure good r) : (∃ a, r = .ok a) ↔ failure = none := by
  cases failure with
  | some e' =>
    have hr : r = .error e' := h
    rw [hr]
    simp
  | none =>
    obtain ⟨a, rfl, _⟩ := h
    exact ⟨fun _ => rfl, fun _ => ⟨a, rfl⟩⟩

/-- Of two computations in a row, the first failure counts. -/
theorem bind {good' : β → Prop} {f : α → Except ε β} (h : Ends failure good r)
    (hf : ∀ a, good a → Ends failure' good' (f a)) :
    Ends (failure.or failure') good' (r.bind f) := by
  cases failure with
  | some e =>
    have hr : r = .error e := h
    rw [hr]
    rfl
  | none =>
    obtain ⟨a, rfl, ha⟩ := h
    exact hf a ha

/-- What is done with a value, and cannot fail, changes nothing about failures. -/
theorem bind_ok {good' : β → Prop} {f : α → Except ε β} (h : Ends failure good r)
    (hf : ∀ a, good a → Ends none good' (f a)) : Ends failure good' (r.bind f) := by
  have hboth := h.bind hf
  rwa [Option.or_none] at hboth

theorem mapError (h : Ends failure good r) (f : ε → ε') :
    Ends (failure.map f) good (r.mapError f) := by
  cases failure with
  | some e =>
    have hr : r = .error e := h
    rw [hr]
    rfl
  | none =>
    obtain ⟨a, rfl, ha⟩ := h
    exact ⟨a, rfl, ha⟩

/-- A loop fails with the first failure of its elements, if the failure of an element is known
beforehand. The induction is on the elements that are left. -/
theorem foldlM {step : β → α → Except ε β} {failureOf : α → Option ε} {inv : β → Prop} {as : List α}
    (hstep : ∀ a ∈ as, ∀ b, inv b → Ends (failureOf a) inv (step b a)) {b : β} (hb : inv b) :
    Ends (as.findSome? failureOf) inv (as.foldlM step b) := by
  induction as generalizing b with
  | nil => exact ok hb
  | cons a rest ih =>
    have hrest : ∀ b, inv b → Ends (rest.findSome? failureOf) inv (rest.foldlM step b) :=
      fun b hb => ih (fun a' ha' => hstep a' (List.mem_cons_of_mem a ha')) hb
    have hboth := (hstep a List.mem_cons_self b hb).bind hrest
    rw [List.findSome?_cons, List.foldlM_cons]
    cases hfails : failureOf a with
    | some e =>
      rw [hfails, Option.some_or] at hboth
      exact hboth
    | none =>
      rw [hfails, Option.none_or] at hboth
      exact hboth

end Ends

end Runs

open Stencil.Runs

/-! ## Files -/

namespace Group

/-- The failure of a text that is parsed under a name, if it is no template. -/
def textFailure? (functions : FuncTable) (name text : String) : Option TemplateError :=
  match Parser.parse functions.defines name text with
  | .ok _ => none
  | .error e => some (.parse name e)

/-- The failure of a file, if it cannot be read or is no template. -/
def fileFailure? (functions : FuncTable) (source : Source) (p : Path) : Option TemplateError :=
  match source.read p with
  | .ok text => textFailure? functions (templateName p) text
  | .error e => some (.read p e)

variable {functions : FuncTable} {g : Group}

theorem ends_parse (hg : g.functions = functions) (name text : String) :
    Ends (textFailure? functions name text) (fun more => more.functions = functions)
      (g.parse name text) := by
  unfold textFailure? parse
  rw [hg]
  cases Parser.parse functions.defines name text with
  | error e => exact rfl
  | ok parsed =>
    refine .ok ?_
    rw [functions_addSource, hg]

/-- Parsing a file fails in the same way in all groups with the same functions. -/
theorem ends_parseFile (hg : g.functions = functions) (source : Source) (p : Path) :
    Ends (fileFailure? functions source p) (fun more => more.functions = functions)
      (g.parseFile source p) := by
  unfold fileFailure? parseFile
  cases source.read p with
  | error e => exact rfl
  | ok text => exact ends_parse hg (templateName p) text

end Group

namespace CommonBase

variable {glob : Glob} {id : SourceId} {source : Source} {ext : String} {functions : FuncTable}

/-- The failure of a file of a source, as a load reports it. -/
def fileFailure? (functions : FuncTable) (id : SourceId) (source : Source) (p : Path) :
    Option LoadError :=
  (Group.fileFailure? functions source p).map (fileFailure id p)

theorem ends_addFile {g : Group} (hg : g.functions = functions) (p : Path) :
    Ends (fileFailure? functions id source p) (fun more => more.functions = functions)
      (addFile id source g p).result := by
  unfold addFile
  rw [Traced.result_bind]
  exact ((Group.ends_parseFile hg source p).mapError (fileFailure id p)).bind_ok
    fun more hmore => .ok hmore

/-! ## Shared files -/

theorem findSome?_flatMap {α β γ : Type} (as : List α) (f : α → List β) (g : β → Option γ) :
    (as.flatMap f).findSome? g = as.findSome? fun a => (f a).findSome? g := by
  induction as with
  | nil => rfl
  | cons a rest ih =>
    rw [List.flatMap_cons, List.findSome?_append, ih, List.findSome?_cons]
    cases (f a).findSome? g with
    | none => rfl
    | some c => rfl

theorem hasDirectory_of_directory {dir : Path} (h : source.metadata dir = .ok .directory) :
    hasDirectory id source dir = .ok true := by
  unfold hasDirectory
  rw [h]
  rfl

theorem hasDirectory_of_not_directory {dir : Path} (hanswers : Answers source dir)
    (h : source.metadata dir ≠ .ok .directory) : hasDirectory id source dir = .ok false :=
  hasDirectory_eq_ok_iff.2 ⟨hanswers, fun hfalse => absurd hfalse Bool.false_ne_true,
    fun hdir => absurd hdir h⟩

/-- The shared files of a source fail with the first failure in the order of parsing. -/
theorem ends_addSource (haccess : Accessible source) {g : Group} (hg : g.functions = functions) :
    Ends ((parseOrder glob ext source).findSome? (fileFailure? functions id source))
      (fun more => more.functions = functions) (addSource glob ext g id source).result := by
  unfold addSource
  rw [Traced.result_bind, Traced.result_ofExcept]
  by_cases hmeta : source.metadata partialsDir = .ok .directory
  · obtain ⟨entries, hwalk⟩ := haccess.walk hmeta
    have hlayouts : (layoutFiles glob id source ext).result = .ok (layouts glob ext source) :=
      layoutFiles_eq_ok_iff.2 ⟨haccess.layouts hmeta, haccess.list hmeta, rfl⟩
    have hpartials : (filesBelow id source ext partialsDir).result = .ok (partials ext source) :=
      filesBelow_eq_ok_iff.2 ⟨entries, hwalk, partials_of_walk hmeta hwalk⟩
    rw [hasDirectory_of_directory hmeta]
    show Ends _ _ (layoutFiles glob id source ext >>= _).result
    rw [Traced.result_bind, hlayouts]
    show Ends _ _ (filesBelow id source ext partialsDir >>= _).result
    rw [Traced.result_bind, hpartials]
    show Ends _ _ ((partials ext source).foldlM (addPartial id source (layouts glob ext source)) g
      >>= _).result
    rw [Traced.result_bind, Traced.result_foldlM, parseOrder, findSome?_flatMap]
    refine Ends.bind_ok (Ends.foldlM (fun p _ g hg => ?_) hg) fun more hmore => .ok hmore
    rw [result_addPartial]
    exact Ends.foldlM (fun q _ g hg => ends_addFile hg q) hg
  · rw [hasDirectory_of_not_directory haccess.partials hmeta, parseOrder_of_not_directory hmeta]
    exact .ok hg

/-- The shared templates fail with the first failure of the first source that has one. -/
theorem ends_build {sources : Sources} (haccess : ∀ e ∈ sources.entries, Accessible e.2) :
    Ends (sources.entries.findSome? fun e =>
        (parseOrder glob ext e.2).findSome? (fileFailure? functions e.1 e.2))
      (fun base => base.functions = functions) (build glob sources functions ext).result := by
  unfold build
  rw [Traced.result_foldlM]
  exact Ends.foldlM (fun e he g hg => ends_addSource (haccess e he) hg) rfl

end CommonBase

/-! ## Views -/

namespace Pages

variable {id : SourceId} {source : Source} {ext : String} {functions : FuncTable}

/-- The views of a source in the order of a walk. -/
def views (ext : String) (source : Source) : List Path :=
  ((CommonBase.entriesOf source viewsDir source.walk).filter (CommonBase.isPartial ext)).map
    Entry.path

/-- Says that everything can be answered that a build asks a source about its views, apart from the
files. -/
structure Accessible (source : Source) : Prop where
  views : CommonBase.Answers source viewsDir
  walk : source.metadata viewsDir = .ok .directory → ∃ entries, source.walk viewsDir = .ok entries

/-- The failure of a view. A view without an identifier is not even read. -/
def viewFailure? (functions : FuncTable) (ext : String) (id : SourceId) (source : Source)
    (p : Path) : Option LoadError :=
  match PageId.ofPath? id viewsDir p ext with
  | none => some ⟨id, p, .unnamedPage⟩
  | some _ => CommonBase.fileFailure? functions id source p

theorem ends_addFile {base : Group} (hbase : base.functions = functions) (pages : Pages) (p : Path) :
    Ends (viewFailure? functions ext id source p) (fun _ => True)
      (addFile base ext id source pages p).result := by
  unfold viewFailure? addFile
  cases PageId.ofPath? id viewsDir p ext with
  | none => exact rfl
  | some pageId =>
    show Ends _ _ (compile base id source pageId p >>= _).result
    unfold compile
    rw [Traced.result_bind, Traced.result_bind]
    have hcompiled : Ends (CommonBase.fileFailure? functions id source p) (fun _ : Page => True)
        ((CommonBase.addFile id source base p).result.bind fun group =>
          .ok ⟨pageId, id, p, { group with entry := Group.templateName p }⟩) :=
      (CommonBase.ends_addFile hbase p).bind_ok fun group _ => .ok trivial
    refine hcompiled.bind_ok fun page _ => ?_
    cases hprevious : pages.get? pageId with
    | none => exact .ok trivial
    | some previous => exact .ok trivial

theorem ends_addSource (haccess : Accessible source) {base : Group}
    (hbase : base.functions = functions) (pages : Pages) :
    Ends ((views ext source).findSome? (viewFailure? functions ext id source)) (fun _ => True)
      (addSource base ext pages id source).result := by
  unfold addSource
  rw [Traced.result_bind, Traced.result_ofExcept]
  by_cases hmeta : source.metadata viewsDir = .ok .directory
  · obtain ⟨entries, hwalk⟩ := haccess.walk hmeta
    have hviews : (CommonBase.filesBelow id source ext viewsDir).result = .ok (views ext source) := by
      refine CommonBase.filesBelow_eq_ok_iff.2 ⟨entries, hwalk, ?_⟩
      rw [views, CommonBase.entriesOf_of_directory hmeta hwalk]
      rfl
    rw [CommonBase.hasDirectory_of_directory hmeta]
    show Ends _ _ (CommonBase.filesBelow id source ext viewsDir >>= _).result
    rw [Traced.result_bind, hviews]
    show Ends _ _ ((views ext source).foldlM (addFile base ext id source) pages >>= _).result
    rw [Traced.result_bind, Traced.result_foldlM]
    have hloop : Ends ((views ext source).findSome? (viewFailure? functions ext id source))
        (fun _ : Pages => True)
        ((views ext source).foldlM (fun pages p => (addFile base ext id source pages p).result)
          pages) :=
      Ends.foldlM (fun p _ pages _ => ends_addFile hbase pages p) trivial
    exact hloop.bind_ok fun more _ => .ok trivial
  · have hnone : views ext source = [] := by
      rw [views, CommonBase.entriesOf_of_not_directory hmeta]
      rfl
    rw [CommonBase.hasDirectory_of_not_directory haccess.views hmeta, hnone]
    exact .ok trivial

theorem ends_build {sources : Sources} (haccess : ∀ e ∈ sources.entries, Accessible e.2)
    {base : Group} (hbase : base.functions = functions) :
    Ends (sources.entries.findSome? fun e =>
        (views ext e.2).findSome? (viewFailure? functions ext e.1 e.2))
      (fun _ => True) (build sources base ext).result := by
  unfold build
  rw [Traced.result_foldlM]
  exact Ends.foldlM (fun e he pages _ => ends_addSource (haccess e he) hbase pages) trivial

end Pages

/-! ## Loads -/

/-- The failure of a load: that of the first shared file that has one, or else of the first view. -/
def Site.failure? (glob : Glob) (functions : FuncTable) (ext : String) (sources : Sources) :
    Option SiteError :=
  ((sources.entries.findSome? fun e =>
      (CommonBase.parseOrder glob ext e.2).findSome? (CommonBase.fileFailure? functions e.1 e.2)).map
        .common).or
    ((sources.entries.findSome? fun e =>
      (Pages.views ext e.2).findSome? (Pages.viewFailure? functions ext e.1 e.2)).map .pages)

/-- **How a load ends.** If the sources answer all questions, a load ends with the failure that can be
told beforehand, or else it succeeds. -/
theorem Site.ends_load {glob : Glob} {s : Site}
    (hshared : ∀ e ∈ s.sources.entries, CommonBase.Accessible e.2)
    (hviews : ∀ e ∈ s.sources.entries, Pages.Accessible e.2) :
    Ends (failure? glob s.functions s.extension s.sources) (fun _ => True) (s.load glob).result := by
  unfold load failure?
  rw [Traced.result_bind, Traced.result_mapError]
  refine ((CommonBase.ends_build hshared).mapError SiteError.common).bind fun base hbase => ?_
  rw [Traced.result_bind, Traced.result_mapError]
  exact ((Pages.ends_build hviews hbase).mapError SiteError.pages).bind_ok fun pages _ => .ok trivial

end Stencil
