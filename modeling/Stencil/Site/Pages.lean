/-
The pages of a site.

Every template file among the views of a source is a page. Its group is the shared templates with the
page's own file parsed on top, and the file's template as entry, so what one page defines no other
page sees. Of two pages with one identifier the later one stays.
-/
import Stencil.Site.CommonBase
import Stencil.Site.PageId
import Stencil.Template.Rendering

set_option autoImplicit false

namespace Stencil

/-- A page that is ready to be rendered. -/
structure Page where
  id : String
  source : SourceId
  path : Path
  group : Group

namespace Page

/-- The names of the templates that a page can reach. -/
def templateNames (page : Page) : List String := page.group.templates.keys

/-- What a page puts out for a value. -/
def render (page : Page) (v : Value) : Except TemplateError String := page.group.execute v

/-- What another template of a page's group puts out for a value. -/
def renderTemplate (page : Page) (name : String) (v : Value) : Except TemplateError String :=
  page.group.executeTemplate name v

end Page

/-- Pages under their identifiers. -/
abbrev Pages := Table String Page

namespace Pages

/-- Where a source keeps its views. -/
def viewsDir : Path := ⟨"views"⟩

/-- The page in a file of a source. -/
def compile (base : Group) (id : SourceId) (source : Source) (pageId : String) (p : Path) :
    Traced LoadError Page := do
  let group ← CommonBase.addFile id source base p
  pure ⟨pageId, id, p, { group with entry := Group.templateName p }⟩

/-- The pages with the one in a file of a source. -/
def addFile (base : Group) (ext : String) (id : SourceId) (source : Source) (pages : Pages)
    (p : Path) : Traced LoadError Pages := do
  match PageId.ofPath? id viewsDir p ext with
  -- A file called only by the extension stops the load before it is read.
  | none => Traced.ofExcept (.error ⟨id, p, .unnamedPage⟩)
  | some pageId =>
    let page ← compile base id source pageId p
    Traced.report (.compiledPage id pageId p page.templateNames.length)
    match pages.get? pageId with
    | some previous => Traced.report (.replacedPage previous.id previous.path previous.source id)
    | none => pure ()
    pure (pages.insert pageId page)

/-- The pages with those of a source. -/
def addSource (base : Group) (ext : String) (pages : Pages) (id : SourceId) (source : Source) :
    Traced LoadError Pages := do
  if ← Traced.ofExcept (CommonBase.hasDirectory id source viewsDir) then
    let files ← CommonBase.filesBelow id source ext viewsDir
    let more ← files.foldlM (addFile base ext id source) pages
    Traced.report (.compiledPages id files.length)
    pure more
  else
    Traced.report (.directoryMissing id viewsDir)
    pure pages

/-- The pages of some sources on top of their shared templates. -/
def build (sources : Sources) (base : Group) (ext : String) : Traced LoadError Pages :=
  sources.entries.foldlM (fun pages entry => addSource base ext pages entry.1 entry.2) Table.empty

end Pages

end Stencil
