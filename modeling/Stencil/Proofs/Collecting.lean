/-
Definitions that are collected one by one.

The parser keeps the definitions found so far with each name once and puts the next one in. What it
then has is what the grammar says about the whole list of definitions: the names in the order of
first appearance, each with its template with content or else its first one. It refuses a definition
exactly if the list with it has two templates with content for one name.
-/
import Stencil.Proofs.Definitions
import Stencil.Proofs.Grammar

set_option autoImplicit false

namespace Stencil.Grammar

/-! ## The template of a name -/

theorem name_of_chosen? {ds : List Tree} {name : String} {t : Tree} (h : chosen? ds name = some t) :
    t.name = name := by
  have hmem : t ∈ ds.filter fun t => t.name = name := by
    rcases Option.or_eq_some_iff.1 h with hcontent | ⟨_, hfirst⟩
    · exact List.mem_of_find?_eq_some hcontent
    · exact List.mem_of_mem_head? hfirst
  simpa using (List.mem_filter.1 hmem).2

theorem exists_chosen? {ds : List Tree} {name : String} (h : name ∈ ds.map Tree.name) :
    ∃ t, chosen? ds name = some t := by
  obtain ⟨t, ht, hname⟩ := List.mem_map.1 h
  have hne : (ds.filter fun t => t.name = name) ≠ [] :=
    List.ne_nil_of_mem (List.mem_filter.2 ⟨ht, by simpa using hname⟩)
  refine Option.isSome_iff_exists.1 ?_
  rw [chosen?, Option.isSome_or, List.head?_eq_some_head hne, Option.isSome_some, Bool.or_true]

/-- A name gets an empty template only if all its templates are empty. -/
theorem isEmpty_of_chosen? {ds : List Tree} {name : String} {t u : Tree}
    (h : chosen? ds name = some t) (ht : t.isEmpty = true) (hu : u ∈ ds) (hname : u.name = name) :
    u.isEmpty = true := by
  rcases Option.or_eq_some_iff.1 h with hcontent | ⟨hnone, _⟩
  · have hshown := List.find?_some hcontent
    rw [ht] at hshown
    exact absurd hshown (by decide)
  · have hall := List.find?_eq_none.1 hnone u (List.mem_filter.2 ⟨hu, by simpa using hname⟩)
    simpa using hall

theorem mem_of_chosen? {ds : List Tree} {name : String} {t : Tree} (h : chosen? ds name = some t) :
    t ∈ ds := by
  rcases Option.or_eq_some_iff.1 h with hcontent | ⟨_, hfirst⟩
  · exact (List.mem_filter.1 (List.mem_of_find?_eq_some hcontent)).1
  · exact (List.mem_filter.1 (List.mem_of_mem_head? hfirst)).1

theorem chosen?_append_of_ne {ds : List Tree} {tree : Tree} {name : String} (h : tree.name ≠ name) :
    chosen? (ds ++ [tree]) name = chosen? ds name := by
  unfold chosen?
  rw [List.filter_append, List.filter_cons_of_neg (by simpa using h), List.filter_nil,
    List.append_nil]

theorem chosen?_append_of_new {ds : List Tree} {tree : Tree} (h : tree.name ∉ ds.map Tree.name) :
    chosen? (ds ++ [tree]) tree.name = some tree := by
  have hnone : (ds.filter fun t => t.name = tree.name) = [] := by
    rw [List.filter_eq_nil_iff]
    intro t ht hname
    exact h (List.mem_map.2 ⟨t, ht, by simpa using hname⟩)
  unfold chosen?
  rw [List.filter_append, hnone, List.filter_cons_of_pos (by simp), List.nil_append]
  cases htree : tree.isEmpty <;> simp [htree]

/-- A further template of a name counts if it has content and the others have none. -/
theorem chosen?_append_of_old {ds : List Tree} {tree old : Tree}
    (h : chosen? ds tree.name = some old) :
    chosen? (ds ++ [tree]) tree.name
      = some (if tree.isEmpty = false ∧ old.isEmpty = true then tree else old) := by
  unfold chosen? at h ⊢
  rw [List.filter_append, List.filter_cons_of_pos (by simp), List.filter_nil, List.find?_append,
    List.head?_append]
  rcases Option.or_eq_some_iff.1 h with hcontent | ⟨hnone, hfirst⟩
  · have hshown : old.isEmpty = false := by simpa using List.find?_some hcontent
    rw [hcontent, Option.some_or, Option.some_or, if_neg (by simp [hshown])]
  · have hblank : old.isEmpty = true := by
      simpa using List.find?_eq_none.1 hnone old (List.mem_of_mem_head? hfirst)
    rw [hnone, Option.none_or, hfirst, Option.some_or]
    cases htree : tree.isEmpty <;> simp [htree, hblank]

/-! ## One more definition -/

theorem nodup_eraseDups : (names : List String) → names.eraseDups.Nodup
  | [] => List.nodup_nil
  | name :: rest => by
    have hshorter : (rest.filter fun other => !other == name).length < (name :: rest).length :=
      Nat.lt_succ_of_le (List.length_filter_le _ rest)
    rw [List.eraseDups_cons, List.nodup_cons]
    refine ⟨fun h => ?_, nodup_eraseDups _⟩
    have hmem := (List.mem_filter.1 (List.mem_eraseDups.1 h)).2
    exact absurd hmem (by simp)
termination_by names => names.length
decreasing_by exact hshorter

/-- A definition of a name that is there changes what `f` says about this name and nothing else. -/
theorem addDefine_filterMap {names : List String} {f g : String → Option Tree} {tree old : Tree}
    {pos : Position} (hf : ∀ name ∈ names, ∃ t, f name = some t ∧ t.name = name)
    (hnames : names.Nodup) (hmem : tree.name ∈ names) (hold : f tree.name = some old)
    (hg : g tree.name = some (if tree.isEmpty = false ∧ old.isEmpty = true then tree else old))
    (hothers : ∀ name, tree.name ≠ name → g name = f name) :
    Parser.addDefine tree pos (names.filterMap f)
      = if tree.isEmpty = true ∨ old.isEmpty = true then .ok (names.filterMap g)
        else .error ⟨.definedTwice tree.name, pos⟩ := by
  induction names with
  | nil => exact absurd hmem List.not_mem_nil
  | cons name rest ih =>
    obtain ⟨t, ht, hname⟩ := hf name List.mem_cons_self
    obtain ⟨hfresh, hrest⟩ := List.nodup_cons.1 hnames
    rw [List.filterMap_cons_some ht, Parser.addDefine]
    by_cases hsame : tree.name = name
    · have ht' : t = old := by
        rw [← hsame, hold] at ht
        exact (Option.some.inj ht).symm
      have hkept : rest.filterMap g = rest.filterMap f :=
        List.filterMap_congr fun other hother => hothers other fun h => hfresh (hsame ▸ h ▸ hother)
      rw [hsame] at hg
      rw [if_pos (hname.trans hsame.symm), List.filterMap_cons_some hg, hkept, ht']
      cases tree.isEmpty <;> cases old.isEmpty <;> rfl
    · have hmem' : tree.name ∈ rest := (List.mem_cons.1 hmem).resolve_left hsame
      have hadd := ih (fun other hother => hf other (List.mem_cons_of_mem _ hother)) hrest hmem'
      rw [if_neg fun h => hsame (h.symm.trans hname), hadd,
        List.filterMap_cons_some ((hothers name hsame).trans ht)]
      split
      · rfl
      · rfl

theorem collected_append_of_new {ds : List Tree} {tree : Tree} (h : tree.name ∉ ds.map Tree.name) :
    collected (ds ++ [tree]) = collected ds ++ [tree] := by
  have hothers : (ds.map Tree.name).eraseDups.filterMap (chosen? (ds ++ [tree]))
      = (ds.map Tree.name).eraseDups.filterMap (chosen? ds) := by
    refine List.filterMap_congr fun name hname => chosen?_append_of_ne ?_
    intro heq
    exact h (heq ▸ List.mem_eraseDups.1 hname)
  unfold collected
  rw [List.map_append, List.eraseDups_append, List.filterMap_append, hothers]
  have hnew : ([tree].map Tree.name).removeAll (ds.map Tree.name) = [tree.name] := by
    simp only [List.map_singleton, List.removeAll, List.filter_cons, List.filter_nil]
    rw [if_pos (by simpa using h)]
  have hone : [tree.name].eraseDups = [tree.name] := rfl
  rw [hnew, hone, List.filterMap_cons_some (chosen?_append_of_new h)]
  rfl

theorem collected_append_of_old {ds : List Tree} {tree : Tree} (h : tree.name ∈ ds.map Tree.name) :
    collected (ds ++ [tree]) = (ds.map Tree.name).eraseDups.filterMap (chosen? (ds ++ [tree])) := by
  unfold collected
  rw [List.map_append, List.eraseDups_append]
  have hnone : ([tree].map Tree.name).removeAll (ds.map Tree.name) = [] := by
    simp only [List.map_singleton, List.removeAll, List.filter_cons, List.filter_nil]
    rw [if_neg (by simpa using h)]
  rw [hnone, List.eraseDups_nil, List.append_nil]

theorem compatible_append {ds : List Tree} {tree : Tree} :
    Compatible (ds ++ [tree])
      ↔ Compatible ds ∧ ∀ t ∈ ds, t.name = tree.name → t.isEmpty = true ∨ tree.isEmpty = true := by
  unfold Compatible
  rw [List.pairwise_append]
  simp

theorem compatible_append_of_old {ds : List Tree} {tree old : Tree} (hds : Compatible ds)
    (hold : chosen? ds tree.name = some old) :
    Compatible (ds ++ [tree]) ↔ tree.isEmpty = true ∨ old.isEmpty = true := by
  rw [compatible_append]
  constructor
  · rintro ⟨_, hall⟩
    exact (hall old (mem_of_chosen? hold) (name_of_chosen? hold)).symm
  · rintro (htree | hblank)
    · exact ⟨hds, fun _ _ _ => Or.inr htree⟩
    · exact ⟨hds, fun t ht hname => Or.inl (isEmpty_of_chosen? hold hblank ht hname)⟩

/-- **Collecting.** The next definition is taken exactly if no name then has two templates with
content, and the result is what the grammar makes of all definitions. -/
theorem addDefine_collected_iff {ds d : List Tree} {tree : Tree} {pos : Position}
    (hds : Compatible ds) :
    Parser.addDefine tree pos (collected ds) = .ok d
      ↔ Compatible (ds ++ [tree]) ∧ d = collected (ds ++ [tree]) := by
  have hnames : ∀ name ∈ (ds.map Tree.name).eraseDups,
      ∃ t, chosen? ds name = some t ∧ t.name = name := by
    intro name hname
    obtain ⟨t, ht⟩ := exists_chosen? (List.mem_eraseDups.1 hname)
    exact ⟨t, ht, name_of_chosen? ht⟩
  by_cases hmem : tree.name ∈ ds.map Tree.name
  · obtain ⟨old, hold⟩ := exists_chosen? hmem
    have hadd : Parser.addDefine tree pos (collected ds)
        = if tree.isEmpty = true ∨ old.isEmpty = true then .ok (collected (ds ++ [tree]))
          else .error ⟨.definedTwice tree.name, pos⟩ := by
      rw [collected_append_of_old hmem]
      exact addDefine_filterMap hnames (nodup_eraseDups _) (List.mem_eraseDups.2 hmem) hold
        (chosen?_append_of_old hold) fun _ hne => chosen?_append_of_ne hne
    rw [hadd, compatible_append_of_old hds hold]
    split
    · rename_i hone
      exact ⟨fun h => ⟨hone, (Except.ok.inj h).symm⟩, fun h => by rw [h.2]⟩
    · rename_i htwo
      exact ⟨fun h => absurd h (by simp), fun h => absurd h.1 htwo⟩
  · have hnew : tree.name ∉ (collected ds).map Tree.name := by
      intro h
      obtain ⟨t, ht, hname⟩ := List.mem_map.1 h
      obtain ⟨name, _, hchosen⟩ := List.mem_filterMap.1 ht
      exact hmem (hname ▸ List.mem_map_of_mem (mem_of_chosen? hchosen))
    rw [Parser.addDefine_of_new hnew, collected_append_of_new hmem, compatible_append]
    constructor
    · intro h
      refine ⟨⟨hds, fun t ht hname => ?_⟩, (Except.ok.inj h).symm⟩
      exact absurd (hname ▸ List.mem_map_of_mem ht) hmem
    · rintro ⟨_, rfl⟩
      rfl

/-! ## All definitions -/

/-- Definitions and their places, added one after the other. -/
def addDefines (placed : List (Tree × Position)) (defines : List Tree) :
    Except ParseError (List Tree) :=
  placed.foldlM (fun ds d => Parser.addDefine d.1 d.2 ds) defines

theorem addDefines_append (placed placed' : List (Tree × Position)) (defines : List Tree) :
    addDefines (placed ++ placed') defines = addDefines placed defines >>= addDefines placed' :=
  List.foldlM_append

theorem compatible_left {ds ds' : List Tree} (h : Compatible (ds ++ ds')) : Compatible ds :=
  (List.pairwise_append.1 h).1

/-- Definitions are all taken exactly if no name has two templates with content among them. -/
theorem addDefines_collected_iff {placed : List (Tree × Position)} {ds d : List Tree}
    (hds : Compatible ds) :
    addDefines placed (collected ds) = .ok d
      ↔ Compatible (ds ++ placed.map Prod.fst) ∧ d = collected (ds ++ placed.map Prod.fst) := by
  induction placed generalizing ds with
  | nil =>
    rw [List.map_nil, List.append_nil]
    exact ⟨fun h => ⟨hds, (Except.ok.inj h).symm⟩, fun h => congrArg Except.ok h.2.symm⟩
  | cons first rest ih =>
    obtain ⟨tree, pos⟩ := first
    have hassoc : ds ++ ((tree, pos) :: rest).map Prod.fst = ds ++ [tree] ++ rest.map Prod.fst := by
      rw [List.append_assoc]
      rfl
    rw [addDefines, List.foldlM_cons, Runs.monad_bind_eq_ok, hassoc]
    constructor
    · rintro ⟨more, hadd, hrest⟩
      obtain ⟨hmore, rfl⟩ := (addDefine_collected_iff hds).1 hadd
      exact (ih hmore).1 hrest
    · rintro ⟨hall, rfl⟩
      have hmore := compatible_left hall
      exact ⟨_, (addDefine_collected_iff hds).2 ⟨hmore, rfl⟩, (ih hmore).2 ⟨hall, rfl⟩⟩

end Stencil.Grammar
