/-
No execution misses a function.

Once a group has its functions, every template that it ever gets has been parsed with them: whatever
is parsed into the group or into a copy of it, and whatever fails on the way, all its templates
mention only functions that are there. The same holds for the pages of a site, because the shared
templates and the pages on top of them are such groups with the functions of the site. A function
that is not there is therefore a failure of parsing and never one of rendering.
-/
import Stencil.Proofs.Additions
import Stencil.Proofs.Resolution
import Stencil.Proofs.SharedFiles
import Stencil.Proofs.SiteRuns
import Stencil.Proofs.ViewFiles

set_option autoImplicit false

namespace Stencil

/-! ## Groups with given functions -/

namespace Group

/-- Says that a group has certain functions, and that its templates mention only those. -/
structure CheckedWith (functions : FuncTable) (g : Group) : Prop where
  functions : g.functions = functions
  checked : g.Checked

variable {functions : FuncTable} {g : Group}

theorem checkedWith_named (name : String) (functions : FuncTable) :
    CheckedWith functions { named name with functions } := ⟨rfl, checked_named name functions⟩

theorem CheckedWith.foldl_add (h : g.CheckedWith functions) {ts : List Tree}
    (hts : ∀ t ∈ ts, Resolved functions.defines t.mentions) :
    (ts.foldl Group.add g).CheckedWith functions := by
  refine ⟨by rw [foldl_add_functions, h.functions], h.checked.foldl_add fun t ht => ?_⟩
  rw [h.functions]
  exact hts t ht

/-- Which template is executed by default does not matter. -/
theorem CheckedWith.withEntry (h : g.CheckedWith functions) (entry : String) :
    CheckedWith functions { g with entry } := ⟨h.functions, h.checked⟩

theorem resolved_of_parsedText? {name text : String} {s : ParsedSource}
    (h : parsedText? functions name text = some s) :
    ∀ t ∈ s.trees, Resolved functions.defines t.mentions :=
  ParsedSource.resolved_of_parse (Runs.toOption_eq_some.1 h)

theorem resolved_of_parsedFile? {source : Source} {p : Path} {s : ParsedSource}
    (h : parsedFile? functions source p = some s) :
    ∀ t ∈ s.trees, Resolved functions.defines t.mentions := by
  obtain ⟨text, _, htext⟩ := parsedFile?_eq_some_iff.1 h
  exact ParsedSource.resolved_of_parse htext

/-- Whatever an addition gets parsed, up to where it fails, mentions only functions that are there. -/
theorem resolved_of_parsedBy {a : Addition} {s : ParsedSource} (h : s ∈ parsedBy functions a) :
    ∀ t ∈ s.trees, Resolved functions.defines t.mentions := by
  cases a with
  | text name source => exact resolved_of_parsedText? (Option.mem_toList.1 h)
  | files source paths =>
    obtain ⟨found, hfound, hs⟩ := List.mem_filterMap.1 h
    have hmem : found ∈ paths.map (parsedFile? functions source) :=
      (List.takeWhile_sublist _).subset hfound
    obtain ⟨p, _, hp⟩ := List.mem_map.1 hmem
    exact resolved_of_parsedFile? (hp.trans hs)

theorem CheckedWith.take (h : g.CheckedWith functions) (a : Addition) :
    (g.take a).1.CheckedWith functions := by
  rw [take_eq_foldl, h.functions]
  refine h.foldl_add fun t ht => ?_
  obtain ⟨s, hs, ht⟩ := List.mem_flatMap.1 ht
  exact resolved_of_parsedBy hs t ht

theorem CheckedWith.executeTemplate (h : g.CheckedWith functions) (name : String) (v : Value) :
    FindsFunctions (g.executeTemplate name v) := h.checked.executeTemplate name v

end Group

/-! ## A group and its copies -/

/-- Something done with one of several groups, each of which stands under a key. -/
inductive GroupStep where
  | take (key : String) (a : Addition)
  /-- A copy of the group is put under another key. -/
  | copy (key target : String)
  | setEntry (key entry : String)
  | execute (key : String) (v : Value)
  | executeTemplate (key name : String) (v : Value)

/-- Groups under keys, and the outcomes of all executions. -/
structure Workbench where
  groups : Table String Group
  outcomes : List (Except TemplateError String)

namespace Workbench

/-- Puts what `f` makes of the group of a key under another key, if there is a group. -/
def change (w : Workbench) (key target : String) (f : Group → Group) : Workbench :=
  match w.groups.get? key with
  | some g => { w with groups := w.groups.insert target (f g) }
  | none => w

/-- Notes the outcome of executing something of the group of a key, if there is a group. -/
def tell (w : Workbench) (key : String) (f : Group → Except TemplateError String) : Workbench :=
  match w.groups.get? key with
  | some g => { w with outcomes := w.outcomes ++ [f g] }
  | none => w

/-- The workbench after one more step. -/
def step (w : Workbench) : GroupStep → Workbench
  | .take key a => w.change key key fun g => (g.take a).1
  | .copy key target => w.change key target id
  | .setEntry key entry => w.change key key fun g => { g with entry }
  | .execute key v => w.tell key fun g => g.execute v
  | .executeTemplate key name v => w.tell key fun g => g.executeTemplate name v

/-- The workbench after steps. -/
def run (w : Workbench) (steps : List GroupStep) : Workbench := steps.foldl step w

/-- A workbench with one group. -/
def one (key : String) (g : Group) : Workbench := ⟨Table.empty.insert key g, []⟩

/-- Says that all groups have certain functions and mention no others, and that no execution has
missed one. -/
structure Sound (functions : FuncTable) (w : Workbench) : Prop where
  groups : ∀ key g, w.groups.get? key = some g → g.CheckedWith functions
  outcomes : ∀ r ∈ w.outcomes, FindsFunctions r

variable {functions : FuncTable} {w : Workbench}

theorem sound_one {g : Group} (h : g.CheckedWith functions) (key : String) :
    Sound functions (one key g) := by
  refine ⟨fun other found hfound => ?_, fun r hr => absurd hr List.not_mem_nil⟩
  rw [one, Table.get?_insert] at hfound
  split at hfound
  · rw [← Option.some.inj hfound]
    exact h
  · exact absurd hfound.symm (Option.some_ne_none found)

theorem Sound.change (h : Sound functions w) (key target : String) {f : Group → Group}
    (hf : ∀ g, g.CheckedWith functions → (f g).CheckedWith functions) :
    Sound functions (w.change key target f) := by
  unfold Workbench.change
  cases hg : w.groups.get? key with
  | none => exact h
  | some g =>
    refine ⟨fun other found hfound => ?_, h.outcomes⟩
    rw [Table.get?_insert] at hfound
    split at hfound
    · rw [← Option.some.inj hfound]
      exact hf g (h.groups key g hg)
    · exact h.groups other found hfound

theorem Sound.tell (h : Sound functions w) (key : String)
    {f : Group → Except TemplateError String}
    (hf : ∀ g, g.CheckedWith functions → FindsFunctions (f g)) :
    Sound functions (w.tell key f) := by
  unfold Workbench.tell
  cases hg : w.groups.get? key with
  | none => exact h
  | some g =>
    refine ⟨h.groups, fun r hr => ?_⟩
    rcases List.mem_append.1 hr with hr | hr
    · exact h.outcomes r hr
    · rw [List.mem_singleton.1 hr]
      exact hf g (h.groups key g hg)

theorem Sound.step (h : Sound functions w) (x : GroupStep) : Sound functions (w.step x) := by
  cases x with
  | take key a => exact h.change key key fun g hg => hg.take a
  | copy key target => exact h.change key target fun g hg => hg
  | setEntry key entry => exact h.change key key fun g hg => hg.withEntry entry
  | execute key v => exact h.tell key fun g hg => hg.executeTemplate g.entry v
  | executeTemplate key name v => exact h.tell key fun g hg => hg.executeTemplate name v

theorem Sound.run (h : Sound functions w) (steps : List GroupStep) :
    Sound functions (w.run steps) := by
  induction steps generalizing w with
  | nil => exact h
  | cons x rest ih => exact ih (h.step x)

end Workbench

/-! ## The pages of a site -/

namespace CommonBase

/-- The shared templates mention only functions of the site. -/
theorem checkedWith_of_build {glob : Glob} {sources : Sources} {functions : FuncTable} {ext : String}
    {base : Group} (h : (build glob sources functions ext).result = .ok base) :
    base.CheckedWith functions := by
  obtain ⟨_, rfl⟩ := build_eq_ok_iff.1 h
  refine (Group.checkedWith_named groupName functions).foldl_add fun t ht => ?_
  obtain ⟨e, _, ht⟩ := List.mem_flatMap.1 ht
  obtain ⟨p, _, ht⟩ := List.mem_flatMap.1 ht
  unfold fileTrees at ht
  cases hs : Group.parsedFile? functions e.2 p with
  | none =>
    rw [hs] at ht
    exact absurd ht List.not_mem_nil
  | some s =>
    rw [hs] at ht
    exact Group.resolved_of_parsedFile? hs t ht

end CommonBase

namespace Site

/-- The pages of a load mention only functions of the site. -/
theorem checkedWith_of_built {glob : Glob} {functions : FuncTable} {ext : String} {sources : Sources}
    {pages : Pages} (h : built glob functions ext sources = .ok pages) {k : String} {page : Page}
    (hpage : pages.get? k = some page) : page.group.CheckedWith functions := by
  obtain ⟨base, hbase, hpages⟩ := Runs.monad_bind_eq_ok.1 h
  have hshared := CommonBase.checkedWith_of_build (Runs.mapError_eq_ok.1 hbase)
  have hbuilt := Pages.builtFrom_of_build (Runs.mapError_eq_ok.1 hpages)
  obtain ⟨f, _, hcompiled⟩ := hbuilt.last?_of_get? hpage
  obtain ⟨name, parsed, ⟨_, text, _, hparse⟩, hgroup⟩ := hcompiled.group
  rw [hshared.functions] at hparse
  rw [hgroup, Group.addSource_eq_foldl]
  exact (hshared.foldl_add (ParsedSource.resolved_of_parse hparse)).withEntry name

end Site

/-- Every page that a site has at any moment mentions only functions of the site. -/
theorem Session.checkedWith_of_after {glob : Glob} {o : SiteOptions} {steps : List SiteStep}
    {k : String}
    {page : Page} (h : (Session.after glob o steps).site.lookUp? k = some page) :
    page.group.CheckedWith (Site.ofOptions o).functions := by
  unfold Site.lookUp? at h
  rw [Session.pages_after_eq] at h
  cases hlast : Session.lastBuilt? glob (Site.ofOptions o).functions (Site.ofOptions o).extension
      (Session.loadedSources o.sources steps) with
  | none =>
    rw [hlast] at h
    exact absurd h.symm (Option.some_ne_none page)
  | some pages =>
    rw [hlast] at h
    obtain ⟨sources, _, hbuilt⟩ := Session.built_of_lastBuilt? hlast
    exact Site.checkedWith_of_built hbuilt h

/-! ## All runs -/

/-- Says that no function is missing: every function mentioned in a template of the groups is
defined, no execution has missed one, and no execution of any template of the groups would. -/
structure Workbench.Complete (functions : FuncTable) (w : Workbench) : Prop where
  mentions : ∀ key g, w.groups.get? key = some g → ∀ name t, g.tree? name = some t →
    ∀ f, .function f ∈ t.mentions → functions.defines f = true
  outcomes : ∀ r ∈ w.outcomes, FindsFunctions r
  executions : ∀ key g, w.groups.get? key = some g → ∀ name v,
    FindsFunctions (g.executeTemplate name v)

theorem Workbench.Sound.complete {functions : FuncTable} {w : Workbench}
    (h : w.Sound functions) : w.Complete functions := by
  refine ⟨fun key g hg name t ht => ?_, h.outcomes, fun key g hg => (h.groups key g hg).executeTemplate⟩
  have hchecked := h.groups key g hg
  rw [← hchecked.functions]
  exact hchecked.checked name t ht

/-- **No function is missing when a template is executed.** Whatever is parsed, copied, set and
executed in a run that begins with a group that has its functions and no templates yet, no function
is missing afterwards. The same holds for every page that a site has at any moment, however it is
rendered, and for every run that begins with the page's group. -/
theorem complete_after_run :
    (∀ (functions : FuncTable) (name key : String) (steps : List GroupStep),
        ((Workbench.one key { Group.named name with functions }).run steps).Complete functions)
      ∧ ∀ (glob : Glob) (o : SiteOptions) (moment : List SiteStep) (id : String) (page : Page),
        (Session.after glob o moment).site.lookUp? id = some page →
          (∀ v, FindsFunctions (page.render v))
            ∧ (∀ name v, FindsFunctions (page.renderTemplate name v))
            ∧ ∀ (key : String) (steps : List GroupStep),
              ((Workbench.one key page.group).run steps).Complete (Site.ofOptions o).functions := by
  have hrun : ∀ (functions : FuncTable) (start : Group), start.CheckedWith functions →
      ∀ key steps, ((Workbench.one key start).run steps).Complete functions := by
    intro functions start hstart key steps
    exact ((Workbench.sound_one hstart key).run steps).complete
  refine ⟨fun functions name => hrun functions _ (Group.checkedWith_named name functions), ?_⟩
  intro glob o moment id page hpage
  have hchecked : page.group.CheckedWith (Site.ofOptions o).functions :=
    Session.checkedWith_of_after hpage
  exact ⟨hchecked.executeTemplate page.group.entry, hchecked.executeTemplate,
    hrun (Site.ofOptions o).functions page.group hchecked⟩

end Stencil
