/-
What a name finds after any number of templates.

Settling the templates of one name one after the other has a closed form. A template with content
never gives way to a blank one, so the last one with content stays, if there is one; and as long as
all are blank, the last one stays. The closed form is stated on lists of templates, where an append
is another run of additions, and everything about groups that are parsed into follows from it.
-/
import Stencil.Proofs.Namespace
import Stencil.Proofs.Runs

set_option autoImplicit false

namespace Stencil

/-! ## Templates of one name -/

namespace Group

/-- The last of some templates that has more than blanks. -/
def lastContent (ts : List Tree) : Option Tree := (ts.filter fun t => !t.isEmpty).getLast?

/-- What a name finds once templates of that name have been added in order: the last one with
content, or else the last one. -/
def lastWord (ts : List Tree) : Option Tree := (lastContent ts).or ts.getLast?

theorem lastContent_append (ts us : List Tree) :
    lastContent (ts ++ us) = (lastContent us).or (lastContent ts) := by
  unfold lastContent
  rw [List.filter_append, List.getLast?_append]

/-- Of several stretches of templates, the last with content counts. -/
theorem lastContent_flatMap {α : Type} (f : α → List Tree) (as : List α) :
    lastContent (as.flatMap f) = as.reverse.findSome? fun a => lastContent (f a) := by
  unfold lastContent
  rw [List.filter_flatMap, List.getLast?_flatMap]

theorem isEmpty_of_lastContent {ts : List Tree} {t : Tree} (h : lastContent ts = some t) :
    t.isEmpty = false := by
  have hmem : t ∈ ts.filter fun t => !t.isEmpty := List.mem_of_getLast? h
  simpa using (List.mem_filter.1 hmem).2

theorem lastContent_eq_none_iff {ts : List Tree} :
    lastContent ts = none ↔ ∀ t ∈ ts, t.isEmpty = true := by
  unfold lastContent
  rw [List.getLast?_eq_none_iff, List.filter_eq_nil_iff]
  simp

theorem lastWord_of_content {ts : List Tree} {t : Tree} (h : lastContent ts = some t) :
    lastWord ts = some t := by
  rw [lastWord, h, Option.some_or]

theorem lastWord_of_blank {ts : List Tree} (h : lastContent ts = none) :
    lastWord ts = ts.getLast? := by
  rw [lastWord, h, Option.none_or]

theorem lastWord_eq_none_iff {ts : List Tree} : lastWord ts = none ↔ ts = [] := by
  unfold lastWord
  rw [Option.or_eq_none_iff, List.getLast?_eq_none_iff]
  refine ⟨fun h => h.2, fun h => ⟨?_, h⟩⟩
  rw [h]
  rfl

/-- Content is found as soon as one of the templates has some. -/
theorem isEmpty_of_lastWord {ts : List Tree} {t : Tree} (h : lastWord ts = some t) :
    t.isEmpty = false ↔ ∃ u ∈ ts, u.isEmpty = false := by
  cases hcontent : lastContent ts with
  | some c =>
    have hc : c = t := Option.some.inj ((lastWord_of_content hcontent).symm.trans h)
    have hmem : c ∈ ts := (List.mem_filter.1 (List.mem_of_getLast? hcontent)).1
    have hshown : c.isEmpty = false := isEmpty_of_lastContent hcontent
    rw [← hc]
    exact ⟨fun _ => ⟨c, hmem, hshown⟩, fun _ => hshown⟩
  | none =>
    rw [lastWord_of_blank hcontent] at h
    have hblank : t.isEmpty = true :=
      lastContent_eq_none_iff.1 hcontent t (List.mem_of_getLast? h)
    refine ⟨fun hshown => ?_, fun ⟨u, hu, hshown⟩ => ?_⟩
    · rw [hblank] at hshown
      exact absurd hshown (by decide)
    · rw [lastContent_eq_none_iff.1 hcontent u hu] at hshown
      exact absurd hshown (by decide)

/-! ## Settling in order -/

/-- One more template settles as if it had been the last of the list. -/
theorem settle_lastWord (ts : List Tree) (t : Tree) :
    settle (lastWord ts) t = lastWord (ts ++ [t]) := by
  cases ht : t.isEmpty with
  | false =>
    have hlast : lastContent (ts ++ [t]) = some t := by
      rw [lastContent_append, lastContent, List.filter_cons_of_pos (by simp [ht])]
      rfl
    have hreplaces : replaces t (lastWord ts) = true := by
      cases lastWord ts <;> simp [replaces, ht]
    rw [lastWord_of_content hlast, settle, if_pos hreplaces]
  | true =>
    have hlast : lastContent (ts ++ [t]) = lastContent ts := by
      rw [lastContent_append, lastContent, List.filter_cons_of_neg (by simp [ht])]
      rfl
    cases hcontent : lastContent ts with
    | some c =>
      -- A blank template does not take the place of content.
      have hkeeps : ¬ replaces t (some c) = true := by
        simp [replaces, ht, isEmpty_of_lastContent hcontent]
      rw [lastWord_of_content hcontent, lastWord_of_content (hlast.trans hcontent), settle,
        if_neg hkeeps]
    | none =>
      have hreplaces : replaces t ts.getLast? = true := by
        cases ho : ts.getLast? with
        | none => rfl
        | some o =>
          have hblank : o.isEmpty = true :=
            lastContent_eq_none_iff.1 hcontent o (List.mem_of_getLast? ho)
          simp [replaces, hblank]
      rw [lastWord_of_blank hcontent, lastWord_of_blank (hlast.trans hcontent), settle,
        if_pos hreplaces, List.getLast?_concat]

theorem lastWord_toList (old : Option Tree) : lastWord old.toList = old := by
  cases old with
  | none => rfl
  | some o =>
    unfold lastWord lastContent
    cases ho : o.isEmpty <;> simp [ho]

theorem foldl_settle_lastWord (ts us : List Tree) :
    us.foldl settle (lastWord ts) = lastWord (ts ++ us) := by
  induction us generalizing ts with
  | nil => rw [List.foldl_nil, List.append_nil]
  | cons u rest ih => rw [List.foldl_cons, settle_lastWord, ih, List.append_assoc, List.singleton_append]

/-- What a name found before counts like a template that was added first. -/
theorem foldl_settle (old : Option Tree) (ts : List Tree) :
    ts.foldl settle old = lastWord (old.toList ++ ts) := by
  rw [← foldl_settle_lastWord, lastWord_toList]

/-- **The closed form of additions.** A name finds the last template with content among those of
its name, or else the last of them, counting what it found before as the first. -/
theorem tree?_foldl_add_eq_lastWord (g : Group) (ts : List Tree) (name : String) :
    (ts.foldl add g).tree? name
      = lastWord ((g.tree? name).toList ++ ts.filter fun t => t.name = name) := by
  rw [tree?_foldl_add, foldl_settle]

/-- Templates that come a second time at once change nothing any more. -/
theorem lastWord_append_twice (ts us : List Tree) :
    lastWord (ts ++ us ++ us) = lastWord (ts ++ us) := by
  have hcontent : lastContent (ts ++ us ++ us) = lastContent (ts ++ us) := by
    rw [lastContent_append (ts ++ us) us, lastContent_append ts us, ← Option.or_assoc, Option.or_self]
  have hlast : (ts ++ us ++ us).getLast? = (ts ++ us).getLast? := by
    rw [List.getLast?_append (l := ts ++ us), List.getLast?_append, ← Option.or_assoc, Option.or_self]
  rw [lastWord, hcontent, hlast, lastWord]

/-! ## Groups that differ in their templates only -/

theorem exists_templates_foldl_add (g : Group) (ts : List Tree) :
    ∃ templates, ts.foldl add g = { g with templates } := by
  induction ts generalizing g with
  | nil => exact ⟨g.templates, rfl⟩
  | cons t rest ih =>
    have hone : ∃ templates, g.add t = { g with templates } := by
      unfold add
      split
      · exact ⟨_, rfl⟩
      · exact ⟨g.templates, rfl⟩
    obtain ⟨next, hnext⟩ := hone
    obtain ⟨templates, htemplates⟩ := ih (g.add t)
    refine ⟨templates, ?_⟩
    rw [List.foldl_cons, htemplates, hnext]

/-- Templates added to one group make equal groups if every name finds the same. -/
theorem foldl_add_congr {g : Group} {ts us : List Tree}
    (h : ∀ name, (ts.foldl add g).tree? name = (us.foldl add g).tree? name) :
    ts.foldl add g = us.foldl add g := by
  have htables : (ts.foldl add g).templates = (us.foldl add g).templates := Table.ext_get? h
  obtain ⟨templates, hts⟩ := exists_templates_foldl_add g ts
  obtain ⟨templates', hus⟩ := exists_templates_foldl_add g us
  rw [hts, hus] at htables ⊢
  have hsame : templates = templates' := htables
  rw [hsame]

end Group

/-! ## Sources that are parsed -/

/-- The templates of a source in the order in which a group takes them. -/
def ParsedSource.trees (s : ParsedSource) : List Tree := s.main :: s.defines

namespace Group

/-- What a text under a name is parsed to, if it is a template. -/
def parsedText? (functions : FuncTable) (name source : String) : Option ParsedSource :=
  (Parser.parse functions.defines name source).toOption

/-- What a file is parsed to, if it can be read and is a template. -/
def parsedFile? (functions : FuncTable) (source : Source) (p : Path) : Option ParsedSource :=
  (source.read p).toOption.bind (parsedText? functions (templateName p))

theorem addSource_eq_foldl (g : Group) (s : ParsedSource) : g.addSource s = s.trees.foldl add g :=
  rfl

/-- Whether a text is a template depends on the functions and on nothing else in the group. -/
theorem parse_eq_ok_iff {g more : Group} {name source : String} :
    g.parse name source = .ok more
      ↔ ∃ s, parsedText? g.functions name source = some s ∧ more = g.addSource s := by
  unfold parse parsedText?
  cases Parser.parse g.functions.defines name source with
  | error e => simp [Except.toOption]
  | ok s =>
    simp only [Except.toOption, Except.ok.injEq, Option.some.injEq, exists_eq_left']
    exact eq_comm

theorem parsedFile?_eq_some_iff {functions : FuncTable} {source : Source} {p : Path}
    {s : ParsedSource} :
    parsedFile? functions source p = some s
      ↔ ∃ text, source.read p = .ok text
        ∧ Parser.parse functions.defines (templateName p) text = .ok s := by
  rw [parsedFile?, Option.bind_eq_some_iff]
  simp only [parsedText?, Runs.toOption_eq_some]

theorem parseFile_eq_ok_iff {g more : Group} {source : Source} {p : Path} :
    g.parseFile source p = .ok more
      ↔ ∃ s, parsedFile? g.functions source p = some s ∧ more = g.addSource s := by
  rw [parseFile_eq_ok]
  constructor
  · rintro ⟨text, s, hread, hparsed, hmore⟩
    exact ⟨s, parsedFile?_eq_some_iff.2 ⟨text, hread, hparsed⟩, hmore⟩
  · rintro ⟨s, hs, hmore⟩
    obtain ⟨text, hread, hparsed⟩ := parsedFile?_eq_some_iff.1 hs
    exact ⟨text, s, hread, hparsed, hmore⟩

end Group

end Stencil
