/-
What a site reports while it loads.

Every step that is worth a line in a log is an event. A computation that reports is a list of events
together with its result; a failure keeps the events that came before it.
-/
import Stencil.Site.SourceId
import Stencil.Text.Quoted

set_option autoImplicit false

namespace Stencil

/-- How important an event is. -/
inductive LogLevel where
  | trace
  | debug
  | info
  | warn
  deriving DecidableEq, Repr

/-- The name of a level. -/
def LogLevel.name : LogLevel → String
  | .trace => "TRACE"
  | .debug => "DEBUG"
  | .info => "INFO"
  | .warn => "WARN"

/-- Something that happened while a site was loaded or described. -/
inductive Event where
  | parsedFile (group template : String) (path : Path)
  | walkedDirectory (root : Path) (entries : Nat)
  | directoryMissing (source : SourceId) (dir : Path)
  | parsedPartial (source : SourceId) (path : Path)
  | loadedCommon (source : SourceId) (layouts partials : Nat)
  | compiledPage (source : SourceId) (page : String) (path : Path) (templates : Nat)
  /-- A page took the identifier of another one. -/
  | replacedPage (page : String) (replaced : Path) (previousSource source : SourceId)
  | compiledPages (source : SourceId) (pages : Nat)
  | loadedSite (sources commonTemplates pages : Nat)
  | registeredPage (page : String) (source : SourceId) (templates : List String)
  deriving DecidableEq, Repr

/-- What an event says about one thing. -/
inductive EventField where
  | text (s : String)
  | count (n : Nat)
  deriving DecidableEq, Repr

namespace Event

/-- The level of an event. -/
def level : Event → LogLevel
  | .parsedFile _ _ _ => .trace
  | .walkedDirectory _ _ => .trace
  | .directoryMissing _ _ => .debug
  | .parsedPartial _ _ => .debug
  | .loadedCommon _ _ _ => .debug
  | .compiledPage _ _ _ _ => .debug
  | .replacedPage _ _ _ _ => .warn
  | .compiledPages _ _ => .debug
  | .loadedSite _ _ _ => .info
  | .registeredPage _ _ _ => .debug

/-- The message of an event. -/
def message : Event → String
  | .parsedFile _ _ _ => "parsed template file"
  | .walkedDirectory _ _ => "Walked directory"
  | .directoryMissing _ _ => "directory missing, skipping"
  | .parsedPartial _ _ => "parsed partial"
  | .loadedCommon _ _ _ => "loaded common templates"
  | .compiledPage _ _ _ _ => "compiled page"
  | .replacedPage _ _ _ _ => "page identifier registered twice, keeping the later page"
  | .compiledPages _ _ => "compiled pages"
  | .loadedSite _ _ _ => "template registry initialized"
  | .registeredPage _ _ _ => "registered page"

/-- A list of names, shown in brackets. -/
def namesText (names : List String) : String :=
  "[" ++ String.intercalate ", " (names.map Text.quote) ++ "]"

/-- What an event says, by name. -/
def fields : Event → List (String × EventField)
  | .parsedFile group template path =>
    [("group", .text group), ("template", .text template), ("path", .text path.text)]
  | .walkedDirectory root entries => [("root", .text root.text), ("entries", .count entries)]
  | .directoryMissing source dir => [("source", .text source.text), ("dir", .text dir.text)]
  | .parsedPartial source path => [("source", .text source.text), ("path", .text path.text)]
  | .loadedCommon source layouts partials =>
    [("source", .text source.text), ("layouts", .count layouts), ("partials", .count partials)]
  | .compiledPage source page path templates =>
    [("source", .text source.text), ("page", .text page), ("path", .text path.text),
      ("templates", .count templates)]
  | .replacedPage page replaced previousSource source =>
    [("page", .text page), ("replaced", .text replaced.text),
      ("previous_source", .text previousSource.text), ("source", .text source.text)]
  | .compiledPages source pages => [("source", .text source.text), ("pages", .count pages)]
  | .loadedSite sources commonTemplates pages =>
    [("sources", .count sources), ("common_templates", .count commonTemplates),
      ("pages", .count pages)]
  | .registeredPage page source templates =>
    [("page", .text page), ("source", .text source.text), ("templates", .text (namesText templates))]

end Event

/-! ## Computations that report -/

/-- A result, and what was reported on the way to it. -/
structure Traced (ε α : Type) where
  events : List Event
  result : Except ε α

namespace Traced

variable {ε ε' α β : Type}

/-- A result about which there is nothing to report. -/
def ofExcept (r : Except ε α) : Traced ε α := ⟨[], r⟩

/-- Goes on with the value of a computation, if it has one. -/
def andThen (t : Traced ε α) (f : α → Traced ε β) : Traced ε β :=
  match t.result with
  | .ok a => ⟨t.events ++ (f a).events, (f a).result⟩
  | .error e => ⟨t.events, .error e⟩

instance : Monad (Traced ε) where
  pure a := ofExcept (.ok a)
  bind := andThen

/-- Reports an event. -/
def report (e : Event) : Traced ε Unit := ⟨[e], .ok ()⟩

/-- The same computation with another description of its failure. -/
def mapError (f : ε → ε') (t : Traced ε α) : Traced ε' α := ⟨t.events, t.result.mapError f⟩

@[simp] theorem result_ofExcept (r : Except ε α) : (ofExcept r).result = r := rfl

@[simp] theorem result_pure (a : α) : (pure a : Traced ε α).result = .ok a := rfl

@[simp] theorem result_report (e : Event) : (report e : Traced ε Unit).result = .ok () := rfl

@[simp] theorem result_mapError (f : ε → ε') (t : Traced ε α) :
    (t.mapError f).result = t.result.mapError f := rfl

/-- Results go on as if nothing were reported. -/
@[simp] theorem result_bind (t : Traced ε α) (f : α → Traced ε β) :
    (t >>= f).result = t.result.bind fun a => (f a).result := by
  show (t.andThen f).result = _
  unfold andThen
  cases t.result <;> rfl

/-- The result of taking elements one after the other is found without the reports. -/
theorem result_foldlM (f : β → α → Traced ε β) (b : β) (as : List α) :
    (as.foldlM f b).result = as.foldlM (fun b a => (f b a).result) b := by
  induction as generalizing b with
  | nil => rfl
  | cons a rest ih =>
    rw [List.foldlM_cons, List.foldlM_cons, result_bind]
    cases (f b a).result with
    | error e => rfl
    | ok next => exact ih next

end Traced

end Stencil
