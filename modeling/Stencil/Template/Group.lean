/-
Groups: templates that can call each other.

A group is a namespace of templates with one table of functions, and a name of its own for messages.
Parsing a source into a group adds the source's own content and its definitions. What is added
replaces what was there, except that a template with nothing but blanks never takes the place of one
with content: it is how a source says that something may be defined elsewhere.
-/
import Stencil.Files.Source
import Stencil.Function.Callees
import Stencil.Template.Error
import Stencil.Template.Parser

set_option autoImplicit false

namespace Stencil

/-- A namespace of templates. -/
structure Group where
  name : String
  /-- The template that executing the group executes. -/
  entry : String
  templates : Table String Tree
  functions : FuncTable

namespace Group

/-- A group without templates and functions, with the template of its own name as entry. -/
def named (name : String) : Group := ⟨name, name, Table.empty, Table.empty⟩

/-- The template of a name. -/
def tree? (g : Group) (name : String) : Option Tree := g.templates.get? name

/-- Whether a template may stand in the place of the one that is there. -/
def replaces (new : Tree) : Option Tree → Bool
  | none => true
  | some old => !new.isEmpty || old.isEmpty

/-- The group with one more template, unless it may not replace the one of its name. -/
def add (g : Group) (t : Tree) : Group :=
  if replaces t (g.tree? t.name) then { g with templates := g.templates.insert t.name t } else g

/-- The template of a name after another one has been added. -/
theorem tree?_add (g : Group) (t : Tree) (name : String) :
    (g.add t).tree? name =
      if name = t.name ∧ replaces t (g.tree? t.name) = true then some t else g.tree? name := by
  unfold add
  by_cases hreplaces : replaces t (g.tree? t.name) = true
  · rw [if_pos hreplaces]
    by_cases hname : name = t.name
    · rw [if_pos ⟨hname, hreplaces⟩]
      exact (Table.get?_insert g.templates t.name name t).trans (if_pos hname)
    · rw [if_neg fun h => hname h.1]
      exact (Table.get?_insert g.templates t.name name t).trans (if_neg hname)
  · rw [if_neg hreplaces, if_neg fun h => hreplaces h.2]

/-- The group with all templates of a source. -/
def addSource (g : Group) (s : ParsedSource) : Group := (s.main :: s.defines).foldl add g

/-- The group with the templates of a source that is parsed under a name. -/
def parse (g : Group) (name source : String) : Except TemplateError Group :=
  match Parser.parse g.functions.defines name source with
  | .ok parsed => .ok (g.addSource parsed)
  | .error e => .error (.parse name e)

/-- The name under which a file is parsed: its file name, or else the whole path. -/
def templateName (p : Path) : String := p.fileName?.getD p.text

/-- The group with the templates of a file. -/
def parseFile (g : Group) (source : Source) (p : Path) : Except TemplateError Group :=
  match source.read p with
  | .ok text => g.parse (templateName p) text
  | .error e => .error (.read p e)

/-- The group with the templates of files, up to the first that fails, and its failure. -/
def parseFiles (g : Group) (source : Source) : List Path → Group × Option TemplateError
  | [] => (g, none)
  | p :: rest =>
    match g.parseFile source p with
    | .ok more => more.parseFiles source rest
    | .error e => (g, some e)

end Group

end Stencil
