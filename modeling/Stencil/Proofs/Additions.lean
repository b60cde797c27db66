/-
Groups that are parsed into again and again.

A group takes texts and files one after the other, and some of them fail: a text that is no template
is left out, and of several files the first that cannot be read or parsed ends the call. Whatever the
order of successes and failures, a name finds what the closed form of additions says about the texts
that were parsed, and nothing else counts. The main statement says this for every run, starting from
any group: a new one, in which no name finds anything, or a copy of another one, which goes on from
what that one held.
-/
import Mathlib.Data.List.TakeWhile
import Stencil.Proofs.Definitions
import Stencil.Proofs.GrammarOfRuns
import Stencil.Proofs.LastWord

set_option autoImplicit false

namespace Stencil

/-- Something to be parsed into a group. -/
inductive Addition where
  | text (name source : String)
  /-- Files of a source, taken in order up to the first that fails. -/
  | files (source : Source) (paths : List Path)

/-- Says that an addition has a source to be parsed under a name. -/
def Addition.Gives : Addition → (name source : String) → Prop
  | .text name' source', name, source => name = name' ∧ source = source'
  | .files origin paths, name, source =>
    ∃ p ∈ paths, name = Group.templateName p ∧ origin.read p = .ok source

namespace Group

/-! ## Runs -/

/-- The group after it has been given something to parse, and the failure if there was one. -/
def take (g : Group) : Addition → Group × Option TemplateError
  | .text name source =>
    match g.parse name source with
    | .ok more => (more, none)
    | .error e => (g, some e)
  | .files source paths => g.parseFiles source paths

/-- The group after any number of additions, failed ones among them. -/
def takeAll (g : Group) (additions : List Addition) : Group :=
  additions.foldl (fun g a => (g.take a).1) g

/-- What files are parsed to, up to the first that cannot be read or is no template. -/
def parsedFiles (functions : FuncTable) (source : Source) (paths : List Path) :
    List ParsedSource :=
  ((paths.map (parsedFile? functions source)).takeWhile Option.isSome).filterMap id

/-- The sources that an addition gets parsed. -/
def parsedBy (functions : FuncTable) : Addition → List ParsedSource
  | .text name source => (parsedText? functions name source).toList
  | .files source paths => parsedFiles functions source paths

/-- The templates that additions bring, in order: of every source that is parsed its own content and
then its definitions. -/
def brought (functions : FuncTable) (additions : List Addition) : List Tree :=
  (additions.flatMap (parsedBy functions)).flatMap ParsedSource.trees

/-! ## Files -/

theorem parseFile_of_parsedFile? {g : Group} {source : Source} {p : Path} {s : ParsedSource}
    (h : parsedFile? g.functions source p = some s) :
    g.parseFile source p = .ok (g.addSource s) :=
  parseFile_eq_ok_iff.2 ⟨s, h, rfl⟩

theorem parseFile_of_none {g : Group} {source : Source} {p : Path}
    (h : parsedFile? g.functions source p = none) : ∃ e, g.parseFile source p = .error e := by
  cases hrun : g.parseFile source p with
  | error e => exact ⟨e, rfl⟩
  | ok more =>
    obtain ⟨s, hs, _⟩ := parseFile_eq_ok_iff.1 hrun
    rw [h] at hs
    exact absurd hs (by simp)

theorem parsedFiles_cons (functions : FuncTable) (source : Source) (p : Path) (rest : List Path) :
    parsedFiles functions source (p :: rest)
      = match parsedFile? functions source p with
        | some s => s :: parsedFiles functions source rest
        | none => [] := by
  unfold parsedFiles
  rw [List.map_cons]
  cases parsedFile? functions source p with
  | none => rfl
  | some s =>
    rw [List.takeWhile_cons_of_pos rfl]
    rfl

/-- A call for files adds the ones in front of the first that fails. -/
theorem parseFiles_eq_foldl (g : Group) (source : Source) (paths : List Path) :
    (g.parseFiles source paths).1
      = ((parsedFiles g.functions source paths).flatMap ParsedSource.trees).foldl add g := by
  induction paths generalizing g with
  | nil => rfl
  | cons p rest ih =>
    rw [parsedFiles_cons, parseFiles]
    cases hp : parsedFile? g.functions source p with
    | none =>
      obtain ⟨e, he⟩ := parseFile_of_none hp
      rw [he]
      rfl
    | some s =>
      rw [parseFile_of_parsedFile? hp]
      -- The functions are those of the group before, so the rest is parsed as it would have been.
      have hrest := ih (g.addSource s)
      rw [functions_addSource] at hrest
      show ((g.addSource s).parseFiles source rest).1 = _
      rw [hrest, List.flatMap_cons, List.foldl_append, ← addSource_eq_foldl]

/-- A call for files that fails at one of them has done what a call for the files in front of it
does, which succeeds. -/
theorem parseFiles_of_fails {g more : Group} {source : Source} {paths : List Path}
    {e : TemplateError} (h : g.parseFiles source paths = (more, some e)) :
    ∃ before p after, paths = before ++ p :: after
      ∧ g.parseFiles source before = (more, none) ∧ more.parseFile source p = .error e := by
  induction paths generalizing g with
  | nil => exact absurd h (by simp [parseFiles])
  | cons p rest ih =>
    rw [parseFiles] at h
    cases hp : g.parseFile source p with
    | error e' =>
      rw [hp] at h
      obtain ⟨rfl, he⟩ := Prod.mk.inj h
      refine ⟨[], p, rest, rfl, rfl, ?_⟩
      rw [hp, Option.some.inj he]
    | ok next =>
      rw [hp] at h
      obtain ⟨before, q, after, hrest, hbefore, hq⟩ := ih h
      refine ⟨p :: before, q, after, ?_, ?_, hq⟩
      · rw [hrest, List.cons_append]
      · rw [parseFiles, hp]
        exact hbefore

/-! ## One addition -/

theorem take_eq_foldl (g : Group) (a : Addition) :
    (g.take a).1 = ((parsedBy g.functions a).flatMap ParsedSource.trees).foldl add g := by
  cases a with
  | files source paths => exact parseFiles_eq_foldl g source paths
  | text name source =>
    rw [take, parsedBy]
    cases hrun : g.parse name source with
    | ok more =>
      obtain ⟨s, hs, hmore⟩ := parse_eq_ok_iff.1 hrun
      rw [hs, hmore, Option.toList_some, List.flatMap_singleton]
      rfl
    | error e =>
      cases hs : parsedText? g.functions name source with
      | none => rfl
      | some s =>
        have hok : g.parse name source = .ok (g.addSource s) := parse_eq_ok_iff.2 ⟨s, hs, rfl⟩
        rw [hrun] at hok
        exact absurd hok (by simp)

/-- A text that is no template adds nothing. -/
theorem take_text_of_fails {g : Group} {name source : String} {e : TemplateError}
    (h : (g.take (.text name source)).2 = some e) : (g.take (.text name source)).1 = g := by
  rw [take] at h ⊢
  cases hrun : g.parse name source with
  | ok more =>
    rw [hrun] at h
    exact absurd h (by simp)
  | error e' => rfl

@[simp] theorem functions_take (g : Group) (a : Addition) : (g.take a).1.functions = g.functions := by
  rw [take_eq_foldl, foldl_add_functions]

/-! ## Inside one source -/

/-- What is parsed is the text that the addition gives, or that of one of its files. -/
theorem exists_gives_of_parsedBy {functions : FuncTable} {a : Addition} {s : ParsedSource}
    (h : s ∈ parsedBy functions a) :
    ∃ name source, a.Gives name source ∧ Parser.parse functions.defines name source = .ok s := by
  cases a with
  | text name source =>
    exact ⟨name, source, ⟨rfl, rfl⟩, Runs.toOption_eq_some.1 (Option.mem_toList.1 h)⟩
  | files source paths =>
    obtain ⟨found, hfound, hs⟩ := List.mem_filterMap.1 h
    have hmem : found ∈ paths.map (parsedFile? functions source) :=
      (List.takeWhile_sublist _).subset hfound
    obtain ⟨p, hp, hparsed⟩ := List.mem_map.1 hmem
    have hfile : parsedFile? functions source p = some s := hparsed.trans hs
    obtain ⟨text, hread, htext⟩ := Option.bind_eq_some_iff.1 hfile
    exact ⟨templateName p, text, ⟨p, hp, rfl, Runs.toOption_eq_some.1 hread⟩,
      Runs.toOption_eq_some.1 htext⟩

/-- What is parsed has definitions of distinct names: they were brought together when the source was
read. -/
theorem nodup_defines_of_parsedBy {functions : FuncTable} {a : Addition} {s : ParsedSource}
    (h : s ∈ parsedBy functions a) : (s.defines.map Tree.name).Nodup := by
  obtain ⟨name, source, _, hparse⟩ := exists_gives_of_parsedBy h
  exact Parser.nodup_names_of_parse hparse

/-- What is parsed is derived by the grammar, which says what becomes of definitions of one name. -/
theorem exists_isTemplate_of_parsedBy {functions : FuncTable} {a : Addition} {s : ParsedSource}
    (h : s ∈ parsedBy functions a) :
    ∃ name source tokens, a.Gives name source ∧ tokensOf source = .ok tokens
      ∧ Grammar.IsTemplate functions name tokens s := by
  obtain ⟨name, source, hgives, hparse⟩ := exists_gives_of_parsedBy h
  obtain ⟨tokens, htokens, hparse⟩ := Parser.parse_eq_ok_iff_tokens.1 hparse
  exact ⟨name, source, tokens, hgives, htokens, Grammar.isTemplate_of_parseTokens hparse⟩

/-! ## Whole runs -/

theorem brought_cons (functions : FuncTable) (a : Addition) (rest : List Addition) :
    brought functions (a :: rest)
      = (parsedBy functions a).flatMap ParsedSource.trees ++ brought functions rest := by
  unfold brought
  rw [List.flatMap_cons, List.flatMap_append]

/-- A run adds exactly what it brings. -/
theorem takeAll_eq_foldl (g : Group) (additions : List Addition) :
    g.takeAll additions = (brought g.functions additions).foldl add g := by
  induction additions generalizing g with
  | nil => rfl
  | cons a rest ih =>
    show (g.take a).1.takeAll rest = _
    rw [ih, functions_take, brought_cons, List.foldl_append, take_eq_foldl]

/-- What a name finds after a run, said without the run. -/
theorem tree?_takeAll (g : Group) (additions : List Addition) (name : String) :
    (g.takeAll additions).tree? name
      = lastWord ((g.tree? name).toList
          ++ (brought g.functions additions).filter fun t => t.name = name) := by
  rw [takeAll_eq_foldl, tree?_foldl_add_eq_lastWord]

/-- A name that finds something goes on to find something. -/
theorem exists_tree?_takeAll {g : Group} {name : String} {t : Tree} (h : g.tree? name = some t)
    (additions : List Addition) : ∃ u, (g.takeAll additions).tree? name = some u := by
  rw [tree?_takeAll, h, ← Option.ne_none_iff_exists', ne_eq, lastWord_eq_none_iff]
  exact List.cons_ne_nil _ _

/-- A name that finds content goes on to find content. -/
theorem exists_content_takeAll {g : Group} {name : String} {t : Tree} (h : g.tree? name = some t)
    (hshown : t.isEmpty = false) (additions : List Addition) :
    ∃ u, (g.takeAll additions).tree? name = some u ∧ u.isEmpty = false := by
  obtain ⟨u, hu⟩ := exists_tree?_takeAll h additions
  refine ⟨u, hu, ?_⟩
  rw [tree?_takeAll, h] at hu
  exact (isEmpty_of_lastWord hu).2 ⟨t, List.mem_cons_self, hshown⟩

/-- The text that came last once more changes nothing. -/
theorem takeAll_twice (g : Group) (name source : String) :
    g.takeAll [.text name source, .text name source] = g.takeAll [.text name source] := by
  rw [takeAll_eq_foldl, takeAll_eq_foldl]
  refine foldl_add_congr fun n => ?_
  rw [brought_cons, tree?_foldl_add_eq_lastWord, tree?_foldl_add_eq_lastWord, List.filter_append,
    ← List.append_assoc]
  have hone : (parsedBy g.functions (.text name source)).flatMap ParsedSource.trees
      = brought g.functions [.text name source] := by
    rw [brought_cons]
    exact (List.append_nil _).symm
  rw [hone, lastWord_append_twice]

/-- **What the names of a group find after any run.** Whatever is given to a group to parse, and
whichever parts of it fail: a name finds the last template with content that was added under it, or
else the last one, counting what the name found at the start. What was added is, for every source
that was parsed, its own content under the name that it was given, and then its definitions: of all
the bodies in it, in the order in which they are complete, each name once, where it came first, with
the only content that it is given or else with its first blank. A text that fails adds nothing, and a
call for files that fails has the effect of the files in front of the one that failed. So no name is
lost, no content gives way to blanks, and a text given twice in a row counts once. -/
theorem names_after_takeAll (g : Group) (additions : List Addition) :
    (∀ name, (g.takeAll additions).tree? name
        = lastWord ((g.tree? name).toList
            ++ (brought g.functions additions).filter fun t => t.name = name))
      ∧ (∀ a ∈ additions, ∀ s ∈ parsedBy g.functions a, (s.defines.map Tree.name).Nodup
          ∧ ∃ name source tokens ds, a.Gives name source ∧ tokensOf source = .ok tokens
            ∧ Grammar.IsNodes g.functions.defines true tokens s.main.root ds
            ∧ Grammar.Compatible ds
            ∧ s = ⟨⟨name, s.main.root⟩, Grammar.collected ds⟩)
      ∧ (∀ name source e, (g.take (.text name source)).2 = some e →
          (g.take (.text name source)).1 = g)
      ∧ (∀ source paths e, (g.take (.files source paths)).2 = some e →
          ∃ before p after, paths = before ++ p :: after
            ∧ g.take (.files source before) = ((g.take (.files source paths)).1, none)
            ∧ (g.take (.files source paths)).1.parseFile source p = .error e)
      ∧ (∀ name, (g.tree? name).isSome = true → ((g.takeAll additions).tree? name).isSome = true)
      ∧ (∀ name t, g.tree? name = some t → t.isEmpty = false →
          ∃ u, (g.takeAll additions).tree? name = some u ∧ u.isEmpty = false)
      ∧ ∀ name source, (g.takeAll additions).takeAll [.text name source, .text name source]
          = (g.takeAll additions).takeAll [.text name source] := by
  refine ⟨tree?_takeAll g additions, fun a _ s hs => ⟨nodup_defines_of_parsedBy hs, ?_⟩,
    fun name source e he => take_text_of_fails he,
    fun source paths e he => parseFiles_of_fails (Prod.ext rfl he), ?_, ?_, ?_⟩
  · obtain ⟨name, source, tokens, hgives, htokens, nodes, ds, hnodes, hcompatible, rfl⟩ :=
      exists_isTemplate_of_parsedBy hs
    exact ⟨name, source, tokens, ds, hgives, htokens, hnodes, hcompatible, rfl⟩
  · intro name hname
    obtain ⟨t, ht⟩ := Option.isSome_iff_exists.1 hname
    exact Option.isSome_iff_exists.2 (exists_tree?_takeAll ht additions)
  · intro name t ht hshown
    exact exists_content_takeAll ht hshown additions
  · intro name source
    exact takeAll_twice _ name source

end Group

end Stencil
