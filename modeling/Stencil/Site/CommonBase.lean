/-
The templates that all pages of a site share.

Every source may have partials, and layouts beside them. Each partial is parsed together with the
layouts of its source: first all layouts, in the order of their names, then the partial. Sources are
taken in their order, so a later definition replaces an earlier one. A source without partials adds
nothing.
-/
import Stencil.Site.Event
import Stencil.Site.Extension
import Stencil.Site.Glob
import Stencil.Site.LoadError
import Stencil.Template.Group

set_option autoImplicit false

namespace Stencil.CommonBase

/-! ## Files of a source -/

/-- Where a source keeps its layouts. -/
def layoutsDir : Path := ⟨"layouts"⟩

/-- Where a source keeps its partials. -/
def partialsDir : Path := ⟨"partials"⟩

/-- Whether a source has a directory at a path. Something else at the path counts as none. -/
def hasDirectory (id : SourceId) (source : Source) (dir : Path) : Except LoadError Bool :=
  match source.metadata dir with
  | .ok kind => .ok (kind = .directory)
  | .error e => if e.isNotFound then .ok false else .error ⟨id, dir, .access e⟩

/-- The template files below a directory, in the order of a walk. -/
def filesBelow (id : SourceId) (source : Source) (ext : String) (dir : Path) :
    Traced LoadError (List Path) := do
  let entries ← Traced.ofExcept ((source.walk dir).mapError fun e => ⟨id, dir, .access e⟩)
  if source.reportsWalks then
    Traced.report (.walkedDirectory dir entries.length)
  let files := entries.filter fun e => e.kind = .file && Extension.endsPath ext e.path
  pure (files.map Entry.path)

/-- The pattern for the names of layouts: anything, and the extension literally. -/
def layoutPattern? (glob : Glob) (ext : String) : Option (MatchOptions → String → Bool) :=
  glob.pattern? ("*" ++ glob.escape ext)

/-- How the names of layouts are matched. Hidden files are no layouts. -/
def layoutOptions : MatchOptions where
  caseSensitive := true
  requireLiteralSeparator := true
  requireLiteralLeadingDot := true

/-- Whether an entry is a layout. Without a pattern, none is. -/
def isLayout (glob : Glob) (ext : String) (e : Entry) : Bool :=
  e.kind = .file &&
    (layoutPattern? glob ext).any fun pattern => pattern layoutOptions e.fileName

/-- The layouts of a source, sorted by name. -/
def layoutFiles (glob : Glob) (id : SourceId) (source : Source) (ext : String) :
    Traced LoadError (List Path) := do
  if ← Traced.ofExcept (hasDirectory id source layoutsDir) then
    let entries ← Traced.ofExcept
      ((source.list layoutsDir).mapError fun e => ⟨id, layoutsDir, .access e⟩)
    pure ((entries.filter (isLayout glob ext)).map Entry.path)
  else
    Traced.report (.directoryMissing id layoutsDir)
    pure []

/-! ## Adding files to a group -/

/-- The failure of a file of a source. A file that cannot be read is named by the failure itself. -/
def fileFailure (id : SourceId) (p : Path) : TemplateError → LoadError
  | .read path e => ⟨id, path, .access e⟩
  | e => ⟨id, p, .parse e⟩

/-- The group with the templates of a file. -/
def addFile (id : SourceId) (source : Source) (g : Group) (p : Path) :
    Traced LoadError Group := do
  let more ← Traced.ofExcept ((g.parseFile source p).mapError (fileFailure id p))
  Traced.report (.parsedFile g.name (Group.templateName p) p)
  pure more

/-- The group with a partial and the layouts of its source. -/
def addPartial (id : SourceId) (source : Source) (layouts : List Path) (g : Group) (p : Path) :
    Traced LoadError Group := do
  -- Layouts come again before every partial, so the last partial has the last word.
  let withLayouts ← layouts.foldlM (addFile id source) g
  let more ← addFile id source withLayouts p
  Traced.report (.parsedPartial id p)
  pure more

/-- The group with the layouts and partials of a source. -/
def addSource (glob : Glob) (ext : String) (g : Group) (id : SourceId) (source : Source) :
    Traced LoadError Group := do
  if ← Traced.ofExcept (hasDirectory id source partialsDir) then
    let layouts ← layoutFiles glob id source ext
    let partials ← filesBelow id source ext partialsDir
    let more ← partials.foldlM (addPartial id source layouts) g
    Traced.report (.loadedCommon id layouts.length partials.length)
    pure more
  else
    Traced.report (.directoryMissing id partialsDir)
    pure g

/-! ## The base -/

/-- The name of the group of shared templates. -/
def groupName : String := "_common_"

/-- The group of shared templates of some sources. -/
def build (glob : Glob) (sources : Sources) (functions : FuncTable) (ext : String) :
    Traced LoadError Group :=
  sources.entries.foldlM (fun g entry => addSource glob ext g entry.1 entry.2)
    { Group.named groupName with functions }

end Stencil.CommonBase
