/-
Settings of a site: the extension of its templates and a directory for every source.

Settings name sources by texts. A colon may not occur in such a name, since it ends the name in the
identifiers of pages, and the two ways to write the root may not both be used. Directories are taken
relative to the directory of the settings file.
-/
import Stencil.Files.Directory
import Stencil.Site.Registry
import Stencil.Yaml.Node

set_option autoImplicit false

namespace Stencil

/-- What a settings file says. -/
structure Settings where
  extension : Option String
  sources : Table String Path

/-- Why settings cannot be used. -/
inductive SettingsError where
  | read (path : Path) (cause : IoCause)
  | malformed
  | invalidSourceId (id : String)
  | duplicateSource (id : SourceId)
  deriving DecidableEq, Repr

/-- The message of a failure. -/
def SettingsError.message : SettingsError → String
  | .read path cause => "reading " ++ path.text ++ ": " ++ cause.message
  | .malformed => "invalid adapter configuration"
  | .invalidSourceId id =>
    "invalid source id " ++ Text.quote id ++ ": source ids must not contain ':'"
  | .duplicateSource id => "source " ++ id.text ++ " is configured more than once"

namespace Settings

/-- The settings of a file that says nothing. -/
def empty : Settings := ⟨none, Table.empty⟩

/-! ## Reading -/

/-- The words for nothing. -/
def isNothing (s : String) : Bool := ["~", "null", "Null", "NULL"].contains s

/-- The extension that a node stands for. Only a plain scalar can be nothing. Without a tag it is if
it is empty or one of the words for nothing; with the tag of nothing it has to be one of the words,
and with another tag it is a text. -/
def extensionOf? (d : Yaml.Document) (n : Yaml.Node) : Option (Option String) := do
  let s ← d.scalar? n
  match s.isPlain, s.tag with
  | true, none => some (if s.isAbsent || isNothing s.text then none else some s.text)
  | true, some tag =>
    if tag ≠ Yaml.Tag.null then some (some s.text)
    else if isNothing s.text then some none
    else none
  | false, _ => some (some s.text)

/-- The entries of a mapping. Nothing stands for an empty one. -/
def entriesOf? (d : Yaml.Document) : Yaml.Node → Option (List (Yaml.Node × Yaml.Node))
  | .map entries => some entries
  | n => if (d.scalar? n).any Yaml.Scalar.isAbsent then some [] else none

/-- The directories with one more, which an entry names. -/
def addSource? (d : Yaml.Document) (t : Table String Path) (entry : Yaml.Node × Yaml.Node) :
    Option (Table String Path) := do
  some (t.insert (← d.text? entry.1) ⟨← d.text? entry.2⟩)

/-- The directories that a node stands for; of several under one name the last counts. -/
def sourcesOf? (d : Yaml.Document) (n : Yaml.Node) : Option (Table String Path) := do
  (← entriesOf? d n).foldlM (addSource? d) Table.empty

/-- The settings with one more field, `seen` being the names of those before. A field may be given
once. -/
def addField? (d : Yaml.Document) (s : Settings) (seen : List String) (name : String)
    (n : Yaml.Node) : Option Settings :=
  if seen.contains name then none
  else if name = "extension" then (extensionOf? d n).map fun extension => { s with extension }
  else if name = "sources" then (sourcesOf? d n).map fun sources => { s with sources }
  else none

/-- The settings with further fields. -/
def addFields? (d : Yaml.Document) (s : Settings) (seen : List String) :
    List (Yaml.Node × Yaml.Node) → Option Settings
  | [] => some s
  | (key, n) :: rest => do
    let name ← d.text? key
    let more ← addField? d s seen name n
    addFields? d more (name :: seen) rest

/-- The settings that a document holds. -/
def ofDocument? (d : Yaml.Document) : Option Settings :=
  match d.root with
  | none => some empty
  | some n => (entriesOf? d n).bind (addFields? d empty [])

/-- The settings that a text stands for. -/
def read (s : String) : Except SettingsError Settings :=
  match (Yaml.Document.read? s).bind ofDocument? with
  | some settings => .ok settings
  | none => .error .malformed

/-- The settings in a file of a disk. -/
def load (d : Disk) (p : Path) : Except SettingsError Settings :=
  match d.text p with
  | .ok s => read s
  | .error cause => .error (.read p cause)

/-! ## Use -/

/-- The directories with one more, for the source that `id` names. -/
def addDirectory (base : Path) (t : Table SourceId Directory) (id : String) (dir : Path) :
    Except SettingsError (Table SourceId Directory) :=
  if id.toList.contains ':' then .error (.invalidSourceId id)
  else if t.contains (SourceId.ofText id) then .error (.duplicateSource (SourceId.ofText id))
  else .ok (t.insert (SourceId.ofText id) ⟨base.join dir⟩)

/-- The directory of every source, relative ones taken from `base`. -/
def directories (s : Settings) (base : Path) :
    Except SettingsError (Table SourceId Directory) :=
  s.sources.entries.foldlM (fun t entry => addDirectory base t entry.1 entry.2) Table.empty

/-- The extension of the site. -/
def siteExtension (s : Settings) : String := Extension.ofText (s.extension.getD "")

/-- Directories of a disk as sources. -/
def sourcesOn (d : Disk) (dirs : Table SourceId Directory) (walker : Walker := .depthFirst) :
    Sources :=
  Table.ofList (dirs.entries.map fun entry => (entry.1, entry.2.source d walker))

/-- The options of a site with the given directories. -/
def optionsOn (s : Settings) (d : Disk) (dirs : Table SourceId Directory)
    (walker : Walker := .depthFirst) : SiteOptions where
  extension := s.siteExtension
  sources := sourcesOn d dirs walker
  functions := Table.empty

/-- The directory of a settings file. -/
def baseOf (p : Path) : Path := p.parent?.getD ⟨"."⟩

/-- The settings in a file and the directories of their sources. -/
def loadDirectories (d : Disk) (p : Path) :
    Except SettingsError (Settings × Table SourceId Directory) := do
  let s ← load d p
  let dirs ← s.directories (baseOf p)
  .ok (s, dirs)

end Settings

end Stencil
