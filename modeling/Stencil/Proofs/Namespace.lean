/-
What a group finds under a name.

Groups grow by templates that are added one after the other, and whether one takes the place of
another depends on nothing but the two of them. So the names of a group are independent of each
other: what a name finds after any number of templates is found by settling, in order, the ones of
that name, and the templates of all other names might as well not be there.
-/
import Mathlib.Logic.Basic
import Stencil.Template.Group

set_option autoImplicit false

namespace Stencil.Group

/-! ## One template -/

/-- What a name finds once a template of that name is added to what it found before. -/
def settle (old : Option Tree) (t : Tree) : Option Tree := if replaces t old then some t else old

theorem tree?_add_self (g : Group) (t : Tree) :
    (g.add t).tree? t.name = settle (g.tree? t.name) t := by
  rw [tree?_add, settle]
  by_cases h : replaces t (g.tree? t.name) = true
  · rw [if_pos ⟨rfl, h⟩, if_pos h]
  · rw [if_neg fun both => h both.2, if_neg h]

theorem tree?_add_of_ne {g : Group} {t : Tree} {name : String} (h : name ≠ t.name) :
    (g.add t).tree? name = g.tree? name := by
  rw [tree?_add, if_neg fun both => h both.1]

@[simp] theorem functions_add (g : Group) (t : Tree) : (g.add t).functions = g.functions := by
  unfold add
  split <;> rfl

/-- Adding a template never takes a name away. -/
theorem isSome_settle (old : Option Tree) (t : Tree) : (settle old t).isSome = true := by
  cases old with
  | none => rfl
  | some o =>
    unfold settle
    split <;> rfl

/-! ## Many templates -/

/-- Only the templates of a name matter for what the name finds. -/
theorem tree?_foldl_add (g : Group) (ts : List Tree) (name : String) :
    (ts.foldl add g).tree? name
      = (ts.filter fun t => t.name = name).foldl settle (g.tree? name) := by
  induction ts generalizing g with
  | nil => rfl
  | cons t rest ih =>
    rw [List.foldl_cons, ih (g.add t)]
    by_cases hname : t.name = name
    · rw [List.filter_cons_of_pos (by simpa using hname), List.foldl_cons, ← hname,
        tree?_add_self]
    · rw [List.filter_cons_of_neg (by simpa using hname),
        tree?_add_of_ne fun h => hname h.symm]

theorem foldl_add_functions (g : Group) (ts : List Tree) :
    (ts.foldl add g).functions = g.functions := by
  induction ts generalizing g with
  | nil => rfl
  | cons t rest ih => rw [List.foldl_cons, ih, functions_add]

theorem isSome_foldl_settle (old : Option Tree) (ts : List Tree) :
    (ts.foldl settle old).isSome = true ↔ old.isSome = true ∨ ts ≠ [] := by
  induction ts generalizing old with
  | nil => simp
  | cons t rest ih =>
    rw [List.foldl_cons, ih, isSome_settle]
    simp

/-! ## One source -/

@[simp] theorem functions_addSource (g : Group) (s : ParsedSource) :
    (g.addSource s).functions = g.functions :=
  foldl_add_functions g (s.main :: s.defines)

/-- A name finds what its own templates of the source make of what it found before. -/
theorem tree?_addSource (g : Group) (s : ParsedSource) (name : String) :
    (g.addSource s).tree? name
      = ((s.main :: s.defines).filter fun t => t.name = name).foldl settle (g.tree? name) :=
  tree?_foldl_add g (s.main :: s.defines) name

/-- A source leaves alone what it does not name. -/
theorem tree?_addSource_of_unnamed {g : Group} {s : ParsedSource} {name : String}
    (hmain : name ≠ s.main.name) (hdefines : name ∉ s.defines.map Tree.name) :
    (g.addSource s).tree? name = g.tree? name := by
  have hnone : ((s.main :: s.defines).filter fun t => t.name = name) = [] := by
    rw [List.filter_eq_nil_iff]
    intro t ht
    rcases List.mem_cons.1 ht with rfl | ht
    · simpa using fun h => hmain h.symm
    · have hne : t.name ≠ name := fun h => hdefines (h ▸ List.mem_map_of_mem ht)
      simpa using hne
  rw [tree?_addSource, hnone, List.foldl_nil]

/-- The names after a source: those before it and its own. -/
theorem mem_names_addSource {g : Group} {s : ParsedSource} {name : String} :
    name ∈ (g.addSource s).templates.keys
      ↔ name ∈ g.templates.keys ∨ name = s.main.name ∨ name ∈ s.defines.map Tree.name := by
  have hfound : name ∈ (g.addSource s).templates.keys
      ↔ ((g.addSource s).tree? name).isSome = true := Table.mem_keys_iff
  have hbefore : name ∈ g.templates.keys ↔ (g.tree? name).isSome = true := Table.mem_keys_iff
  -- A name is one of the source's own if a template of that name is left.
  have hown : ((s.main :: s.defines).filter fun t => t.name = name) ≠ []
      ↔ name = s.main.name ∨ name ∈ s.defines.map Tree.name := by
    rw [ne_eq, List.filter_eq_nil_iff, ← List.mem_cons, ← List.map_cons, List.mem_map]
    simp only [decide_eq_true_eq, not_forall, not_not, exists_prop]
  rw [hfound, hbefore, tree?_addSource, isSome_foldl_settle, hown]

/-! ## One file -/

/-- What a file adds, if it can be read and is a template. -/
theorem parseFile_eq_ok {g more : Group} {source : Source} {p : Path} :
    g.parseFile source p = .ok more ↔
      ∃ text parsed, source.read p = .ok text
        ∧ Parser.parse g.functions.defines (templateName p) text = .ok parsed
        ∧ more = g.addSource parsed := by
  unfold parseFile
  cases source.read p with
  | error e => simp
  | ok text =>
    simp only [parse, Except.ok.injEq, exists_and_left, exists_eq_left']
    cases Parser.parse g.functions.defines (templateName p) text with
    | error e => simp
    | ok parsed =>
      simp only [Except.ok.injEq, exists_eq_left']
      exact eq_comm

end Stencil.Group
