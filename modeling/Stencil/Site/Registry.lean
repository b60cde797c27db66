/-
Sites: sources, functions, and the pages made of them.

A site is loaded as a whole. The pages of the last load that succeeded are the ones that are found
and rendered; a load that fails changes nothing. Since a site is a value, whoever holds one keeps its
pages however often it is loaded again.
-/
import Stencil.Function.Helper
import Stencil.Site.Pages
import Stencil.Site.PlainGlob

set_option autoImplicit false

namespace Stencil

/-! ## Failures -/

/-- Why a site cannot be loaded or a page not rendered. -/
inductive SiteError where
  | common (error : LoadError)
  | pages (error : LoadError)
  | pageNotFound (id : String)
  | render (id : String) (error : TemplateError)

/-- The message of a failure. -/
def SiteError.message : SiteError → String
  | .common error => "error loading partials: " ++ error.message
  | .pages error => "error compiling pages: " ++ error.message
  | .pageNotFound id => "page not found: " ++ id
  | .render id error => "error rendering page " ++ id ++ ": " ++ error.message

/-! ## Sites -/

/-- What a site is made of. -/
structure SiteOptions where
  extension : String
  sources : Sources
  /-- Functions that are added to the helpers or take their place. -/
  functions : FuncTable

/-- A site with the pages of its last load. -/
structure Site where
  extension : String
  sources : Sources
  functions : FuncTable
  pages : Pages

/-- A page and the templates that it can reach. -/
structure PageSummary where
  id : String
  source : SourceId
  templates : List String
  deriving DecidableEq, Repr

namespace Site

/-- A site of which nothing has been loaded. -/
def ofOptions (o : SiteOptions) : Site where
  extension := Extension.ofText o.extension
  sources := o.sources
  functions := Helper.table.union o.functions
  pages := Table.empty

/-- The site loaded anew from its sources. -/
def load (s : Site) (glob : Glob := .plain) : Traced SiteError Site := do
  let base ← (CommonBase.build glob s.sources s.functions s.extension).mapError .common
  let pages ← (Pages.build s.sources base s.extension).mapError .pages
  -- Only here, with everything in place, is the result a new site.
  Traced.report (.loadedSite s.sources.size base.templates.size pages.size)
  pure { s with pages }

/-- Loads a site anew: what the site is afterwards, and how the load went. A site that cannot be loaded
stays as it is. -/
def reload (s : Site) (glob : Glob := .plain) : Site × Traced SiteError Unit :=
  let loading := s.load glob
  match loading.result with
  | .ok loaded => (loaded, ⟨loading.events, .ok ()⟩)
  | .error e => (s, ⟨loading.events, .error e⟩)

/-- The page of an identifier. -/
def lookUp? (s : Site) (id : String) : Option Page := s.pages.get? id

/-- What the page of an identifier puts out for a value. -/
def render (s : Site) (id : String) (v : Value) : Except SiteError String :=
  match s.lookUp? id with
  | none => .error (.pageNotFound id)
  | some page => (page.render v).mapError (.render id)

/-- The identifiers of all pages, sorted. -/
def pageIds (s : Site) : List String := s.pages.keys

/-- All pages with the templates that they can reach, in the order of their identifiers. -/
def describe (s : Site) : List PageSummary :=
  s.pages.entries.map fun (_, page) => ⟨page.id, page.source, page.templateNames⟩

/-- The description of a site as events. -/
def describeEvents (s : Site) : List Event :=
  s.describe.map fun d => .registeredPage d.id d.source d.templates

end Site

end Stencil
