/-
Sites that are loaded again and again.

Between two loads of a site its sources may change in any way, and each load may fail at any file. At
every moment the site has the pages of the last load that succeeded, made of what the sources were
then and of nothing else, or no pages if no load has succeeded. The reason is that the pages of a
load are a function of the functions, the extension and the sources: `built` says this function, the
pages that the site had before are not among its arguments, and a load that fails has no site to go
on with. The induction over a run keeps track of the sources only.
-/
import Stencil.Proofs.Runs
import Stencil.Site.Registry

set_option autoImplicit false

namespace Stencil

variable {glob : Glob}

/-! ## Questions -/

/-- What can be asked of a site without changing it. -/
inductive Question where
  | lookUp (id : String)
  | render (id : String) (v : Value)
  | pageIds
  | describe

/-- An answer of a site. -/
inductive Answer where
  | found (page : Option Page)
  | rendered (outcome : Except SiteError String)
  | ids (all : List String)
  | summaries (all : List PageSummary)

namespace Site

/-- The answer of a site to a question. -/
def answer (s : Site) : Question → Answer
  | .lookUp id => .found (s.lookUp? id)
  | .render id v => .rendered (s.render id v)
  | .pageIds => .ids s.pageIds
  | .describe => .summaries s.describe

/-! ## Loads -/

/-- The pages that a load makes of sources. -/
def built (glob : Glob) (functions : FuncTable) (ext : String) (sources : Sources) :
    Except SiteError Pages := do
  let base ← (CommonBase.build glob sources functions ext).result.mapError .common
  (Pages.build sources base ext).result.mapError .pages

/-- A load gives the site these pages, if there are any to give. -/
theorem result_load (s : Site) :
    (s.load glob).result
      = (built glob s.functions s.extension s.sources).map fun pages => { s with pages } := by
  unfold load built
  rw [Traced.result_bind, Traced.result_mapError]
  cases (CommonBase.build glob s.sources s.functions s.extension).result.mapError
    SiteError.common with
  | error e => rfl
  | ok base =>
    change (((Pages.build s.sources base s.extension).mapError SiteError.pages) >>= _).result = _
    rw [Traced.result_bind, Traced.result_mapError]
    change _ = ((Pages.build s.sources base s.extension).result.mapError SiteError.pages).map _
    cases (Pages.build s.sources base s.extension).result.mapError SiteError.pages with
    | error e => rfl
    | ok pages => rfl

theorem load_eq_ok_iff {s loaded : Site} :
    (s.load glob).result = .ok loaded
      ↔ ∃ pages, built glob s.functions s.extension s.sources = .ok pages
        ∧ loaded = { s with pages } := by
  rw [result_load]
  cases built glob s.functions s.extension s.sources with
  | error e => simp [Except.map]
  | ok pages => simp [Except.map, eq_comm]

theorem load_eq_error_iff {s : Site} {e : SiteError} :
    (s.load glob).result = .error e ↔ built glob s.functions s.extension s.sources = .error e := by
  rw [result_load]
  cases built glob s.functions s.extension s.sources with
  | error e' => simp [Except.map]
  | ok pages => simp [Except.map]

/-- A load takes place if it succeeds, and otherwise nothing does. -/
theorem site_reload (s : Site) :
    (s.reload glob).1 = ((s.load glob).result.toOption).getD s := by
  unfold reload
  dsimp only
  cases (s.load glob).result with
  | error e => rfl
  | ok loaded => rfl

theorem result_reload (s : Site) :
    (s.reload glob).2.result = (s.load glob).result.map fun _ => () := by
  unfold reload
  dsimp only
  cases (s.load glob).result with
  | error e => rfl
  | ok loaded => rfl

end Site

/-! ## Runs -/

/-- Something that happens to a site. -/
inductive SiteStep where
  /-- From now on, the sources have other contents. -/
  | change (sources : Sources)
  | load
  | ask (q : Question)
  /-- Somebody takes the pages as they are now, and keeps them. -/
  | keep

/-- A site with the answers that it has given and the pages that were kept. -/
structure Session where
  site : Site
  answers : List Answer
  kept : List Pages

namespace Session

/-- The session after one more step. -/
def step (glob : Glob) (s : Session) : SiteStep → Session
  | .change sources => { s with site := { s.site with sources } }
  | .load => { s with site := (s.site.reload glob).1 }
  | .ask q => { s with answers := s.answers ++ [s.site.answer q] }
  | .keep => { s with kept := s.kept ++ [s.site.pages] }

/-- The session after steps. -/
def run (glob : Glob) (s : Session) (steps : List SiteStep) : Session :=
  steps.foldl (step glob) s

/-- The session of a new site after steps. -/
def after (glob : Glob) (o : SiteOptions) (steps : List SiteStep) : Session :=
  run glob ⟨.ofOptions o, [], []⟩ steps

/-- The sources as they were at every load, in order. -/
def loadedSources (sources : Sources) : List SiteStep → List Sources
  | [] => []
  | .change other :: rest => loadedSources other rest
  | .load :: rest => sources :: loadedSources sources rest
  | .ask _ :: rest => loadedSources sources rest
  | .keep :: rest => loadedSources sources rest

theorem run_cons (s : Session) (x : SiteStep) (rest : List SiteStep) :
    s.run glob (x :: rest) = (s.step glob x).run glob rest := rfl

theorem run_append (s : Session) (steps more : List SiteStep) :
    s.run glob (steps ++ more) = (s.run glob steps).run glob more := List.foldl_append

theorem after_append (o : SiteOptions) (steps more : List SiteStep) :
    after glob o (steps ++ more) = (after glob o steps).run glob more := run_append _ steps more

theorem step_load_of_ok {s : Session} {pages : Pages}
    (h : Site.built glob s.site.functions s.site.extension s.site.sources = .ok pages) :
    s.step glob .load = { s with site := { s.site with pages } } := by
  have hload : (s.site.load glob).result = .ok { s.site with pages } :=
    Site.load_eq_ok_iff.2 ⟨pages, h, rfl⟩
  rw [step, Site.site_reload, hload]
  rfl

theorem step_load_of_error {s : Session} {e : SiteError}
    (h : Site.built glob s.site.functions s.site.extension s.site.sources = .error e) :
    s.step glob .load = s := by
  rw [step, Site.site_reload, Site.load_eq_error_iff.2 h]
  rfl

/-! ## What does not change -/

/-- Says that a session goes on from another one: its site has the same functions and the same
extension, and what was kept is still there. -/
structure Continues (s t : Session) : Prop where
  functions : t.site.functions = s.site.functions
  extension : t.site.extension = s.site.extension
  kept : s.kept <+: t.kept

theorem Continues.refl (s : Session) : Continues s s := ⟨rfl, rfl, List.prefix_refl _⟩

theorem Continues.trans {s t u : Session} (h : Continues s t) (h' : Continues t u) :
    Continues s u :=
  ⟨h'.functions.trans h.functions, h'.extension.trans h.extension, h.kept.trans h'.kept⟩

theorem continues_step (s : Session) (x : SiteStep) : Continues s (s.step glob x) := by
  cases x with
  | change sources => exact ⟨rfl, rfl, List.prefix_refl _⟩
  | load =>
    cases h : Site.built glob s.site.functions s.site.extension s.site.sources with
    | error e =>
      rw [step_load_of_error h]
      exact .refl s
    | ok pages =>
      rw [step_load_of_ok h]
      exact ⟨rfl, rfl, List.prefix_refl _⟩
  | ask q => exact ⟨rfl, rfl, List.prefix_refl _⟩
  | keep => exact ⟨rfl, rfl, List.prefix_append _ _⟩

theorem continues_run (s : Session) (steps : List SiteStep) : Continues s (s.run glob steps) := by
  induction steps generalizing s with
  | nil => exact .refl s
  | cons x rest ih => exact (continues_step s x).trans (ih (s.step glob x))

/-! ## The pages after a run -/

/-- The pages of the last load that succeeds, among loads of some sources. -/
def lastBuilt? (glob : Glob) (functions : FuncTable) (ext : String) (loads : List Sources) :
    Option Pages :=
  (loads.filterMap fun sources => (Site.built glob functions ext sources).toOption).getLast?

theorem lastBuilt?_append (functions : FuncTable) (ext : String) (loads more : List Sources) :
    lastBuilt? glob functions ext (loads ++ more)
      = (lastBuilt? glob functions ext more).or (lastBuilt? glob functions ext loads) := by
  unfold lastBuilt?
  rw [List.filterMap_append, List.getLast?_append]

theorem lastBuilt?_singleton (functions : FuncTable) (ext : String) (sources : Sources) :
    lastBuilt? glob functions ext [sources] = (Site.built glob functions ext sources).toOption := by
  unfold lastBuilt?
  rw [List.filterMap_cons]
  cases Site.built glob functions ext sources with
  | error e => rfl
  | ok pages => rfl

/-- Pages of the last load are those of one of the loads. -/
theorem built_of_lastBuilt? {functions : FuncTable} {ext : String} {loads : List Sources}
    {pages : Pages} (h : lastBuilt? glob functions ext loads = some pages) :
    ∃ sources ∈ loads, Site.built glob functions ext sources = .ok pages := by
  obtain ⟨sources, hmem, hbuilt⟩ := List.mem_filterMap.1 (List.mem_of_getLast? h)
  exact ⟨sources, hmem, Runs.toOption_eq_some.1 hbuilt⟩

/-- **The pages after a run are those of the last load that succeeds**, or those before the run if
none does. -/
theorem pages_run (s : Session) (steps : List SiteStep) :
    (s.run glob steps).site.pages
      = (lastBuilt? glob s.site.functions s.site.extension
          (loadedSources s.site.sources steps)).getD s.site.pages := by
  induction steps generalizing s with
  | nil => rfl
  | cons x rest ih =>
    rw [run_cons, ih]
    cases x with
    | change sources => rfl
    | ask q => rfl
    | keep => rfl
    | load =>
      rw [loadedSources, ← List.singleton_append, lastBuilt?_append, lastBuilt?_singleton]
      cases h : Site.built glob s.site.functions s.site.extension s.site.sources with
      | error e =>
        rw [step_load_of_error h, Except.toOption, Option.or_none]
      | ok pages =>
        rw [step_load_of_ok h, Except.toOption]
        -- What later loads give comes first, and the pages of this one stand in for it.
        cases lastBuilt? glob s.site.functions s.site.extension
          (loadedSources s.site.sources rest) with
        | none => rfl
        | some later => rfl

/-- The functions and the extension of a new site are the same after every run. -/
theorem continues_after (o : SiteOptions) (steps : List SiteStep) :
    Continues ⟨.ofOptions o, [], []⟩ (after glob o steps) := continues_run _ steps

theorem pages_after_eq (o : SiteOptions) (steps : List SiteStep) :
    (after glob o steps).site.pages
      = (lastBuilt? glob (Site.ofOptions o).functions (Site.ofOptions o).extension
          (loadedSources o.sources steps)).getD Table.empty := pages_run _ steps

/-- **The pages of a site over whole runs.** At every moment, the pages are those made of the sources
as they were at the last load that succeeded, and there are none if no load has succeeded; and a load
succeeds exactly if pages can be made of the sources as they are, whatever pages there were before. A
load that fails says so and might as well not have happened: whatever comes later, the same answers
are given.
Two loads that succeed, with the same sources, give the same identifiers, and everything is rendered
in the same way. Pages that were kept are the ones that were there when they were taken. -/
theorem pages_after (o : SiteOptions) (steps : List SiteStep) :
    (after glob o steps).site.pages
        = (lastBuilt? glob (Site.ofOptions o).functions (Site.ofOptions o).extension
            (loadedSources o.sources steps)).getD Table.empty
      ∧ (∀ loaded, ((after glob o steps).site.load glob).result = .ok loaded
          ↔ ∃ pages, Site.built glob (Site.ofOptions o).functions (Site.ofOptions o).extension
                (after glob o steps).site.sources = .ok pages
            ∧ loaded = { (after glob o steps).site with pages })
      ∧ (∀ e more, ((after glob o steps).site.load glob).result = .error e →
          ((after glob o steps).site.reload glob).2.result = .error e
            ∧ after glob o (steps ++ .load :: more) = after glob o (steps ++ more))
      ∧ (∀ between first second, ((after glob o steps).site.load glob).result = .ok first →
          (after glob o (steps ++ .load :: between)).site.sources
            = (after glob o steps).site.sources →
          ((after glob o (steps ++ .load :: between)).site.load glob).result = .ok second →
            second.pageIds = first.pageIds ∧ ∀ id v, second.render id v = first.render id v)
      ∧ ∀ later, (after glob o (steps ++ .keep :: later)).kept[(after glob o steps).kept.length]?
          = some (after glob o steps).site.pages := by
  have hload : ∀ steps loaded, ((after glob o steps).site.load glob).result = .ok loaded
      ↔ ∃ pages, Site.built glob (Site.ofOptions o).functions (Site.ofOptions o).extension
            (after glob o steps).site.sources = .ok pages
        ∧ loaded = { (after glob o steps).site with pages } := by
    intro steps loaded
    have hfunctions : (after glob o steps).site.functions = (Site.ofOptions o).functions :=
      (continues_after o steps).functions
    have hextension : (after glob o steps).site.extension = (Site.ofOptions o).extension :=
      (continues_after o steps).extension
    rw [← hfunctions, ← hextension]
    exact Site.load_eq_ok_iff
  refine ⟨pages_after_eq o steps, hload steps, ?_, ?_, ?_⟩
  · intro e more hfails
    have hstay : (after glob o steps).step glob .load = after glob o steps :=
      step_load_of_error (Site.load_eq_error_iff.1 hfails)
    refine ⟨?_, ?_⟩
    · rw [Site.result_reload, hfails]
      rfl
    · rw [after_append, run_cons, hstay, after_append]
  · intro between first second hfirst hsame hsecond
    obtain ⟨pages, hpages, rfl⟩ := (hload steps first).1 hfirst
    obtain ⟨pages', hpages', rfl⟩ := (hload _ second).1 hsecond
    rw [hsame, hpages] at hpages'
    obtain rfl : pages = pages' := Except.ok.inj hpages'
    exact ⟨rfl, fun _ _ => rfl⟩
  · intro later
    rw [after_append, run_cons]
    obtain ⟨more, hmore⟩ := (continues_run ((after glob o steps).step glob .keep) later).kept
    have htaken : ((after glob o steps).step glob .keep).kept
        = (after glob o steps).kept ++ [(after glob o steps).site.pages] := rfl
    rw [← hmore, htaken, List.append_assoc, List.getElem?_append_right (Nat.le_refl _),
      Nat.sub_self]
    rfl

end Session

end Stencil
