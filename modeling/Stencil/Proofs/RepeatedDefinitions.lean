/-
Names that one source defines more than once.

A source may define a name in several places, in definitions and in blocks however deep inside other
constructs. The bodies are taken in the order in which their ends are read, so a block comes before
what it stands in. As long as no name has two bodies with content, a name gets its body with content
or else its first one; the first body that repeats a name with content is where parsing fails. Apart
from that, what the grammar derives is parsed.
-/
import Stencil.Proofs.GrammarReading

set_option autoImplicit false

namespace Stencil

open Stencil.Grammar Stencil.Runs

/-! ## Bodies with content -/

namespace Grammar

/-- The definitions of a name that have content. -/
def contents (ds : List Tree) (name : String) : List Tree :=
  ds.filter fun t => t.name = name ∧ t.isEmpty = false

theorem mem_contents {ds : List Tree} {name : String} {t : Tree} :
    t ∈ contents ds name ↔ t ∈ ds ∧ t.name = name ∧ t.isEmpty = false := by
  simp [contents]

/-- No name has two templates with content: nothing but a count. -/
theorem compatible_iff_contents {ds : List Tree} :
    Compatible ds ↔ ∀ name, (contents ds name).length ≤ 1 := by
  induction ds with
  | nil => exact iff_of_true .nil fun _ => Nat.zero_le _
  | cons t rest ih =>
    have hskip : ∀ name, ¬ (t.name = name ∧ t.isEmpty = false) →
        contents (t :: rest) name = contents rest name :=
      fun name h => List.filter_cons_of_neg (by simpa using h)
    have hcount : ∀ name, t.name = name ∧ t.isEmpty = false →
        contents (t :: rest) name = t :: contents rest name :=
      fun name h => List.filter_cons_of_pos (by simpa using h)
    have hcons : Compatible (t :: rest)
        ↔ (∀ u ∈ rest, t.name = u.name → t.isEmpty = true ∨ u.isEmpty = true) ∧ Compatible rest :=
      List.pairwise_cons
    rw [hcons, ih]
    constructor
    · rintro ⟨hall, hrest⟩ name
      by_cases ht : t.name = name ∧ t.isEmpty = false
      · have hnone : contents rest name = [] := by
          refine List.eq_nil_iff_forall_not_mem.2 fun u hu => ?_
          obtain ⟨hmem, hname, hshown⟩ := mem_contents.1 hu
          have hempty := hall u hmem (ht.1.trans hname.symm)
          simp [ht.2, hshown] at hempty
        rw [hcount name ht, hnone]
        exact Nat.le_refl 1
      · rw [hskip name ht]
        exact hrest name
    · intro h
      constructor
      · intro u hu hname
        cases ht : t.isEmpty with
        | true => exact Or.inl rfl
        | false =>
          have hlength := h t.name
          rw [hcount t.name ⟨rfl, ht⟩, List.length_cons] at hlength
          have hnone : contents rest t.name = [] := List.length_eq_zero_iff.1 (by omega)
          cases hshown : u.isEmpty with
          | true => exact Or.inr rfl
          | false =>
            have hmem := mem_contents.2 ⟨hu, hname.symm, hshown⟩
            rw [hnone] at hmem
            exact absurd hmem List.not_mem_nil
      · intro name
        exact Nat.le_trans ((List.sublist_cons_self t rest).filter _).length_le (h name)

/-- A name gets its only template with content, or else its first one. -/
theorem contents_of_chosen? {ds : List Tree} {name : String} {t : Tree}
    (h : chosen? ds name = some t) (hone : (contents ds name).length ≤ 1) :
    contents ds name = [t] ∨
      contents ds name = [] ∧ (ds.filter fun t => t.name = name).head? = some t := by
  rcases Option.or_eq_some_iff.1 h with hcontent | ⟨hnone, hfirst⟩
  · left
    have hshown : t.isEmpty = false := by simpa using List.find?_some hcontent
    have ht : t ∈ contents ds name := mem_contents.2 ⟨mem_of_chosen? h, name_of_chosen? h, hshown⟩
    have hlength : (contents ds name).length = 1 :=
      Nat.le_antisymm hone (List.length_pos_of_mem ht)
    obtain ⟨u, hu⟩ := List.length_eq_one_iff.1 hlength
    rw [hu, List.mem_singleton] at ht
    rw [hu, ht]
  · right
    refine ⟨List.eq_nil_iff_forall_not_mem.2 fun u hu => ?_, hfirst⟩
    obtain ⟨hmem, hname, hshown⟩ := mem_contents.1 hu
    have hempty := List.find?_eq_none.1 hnone u (List.mem_filter.2 ⟨hmem, by simpa using hname⟩)
    simp [hshown] at hempty

theorem names_collected (ds : List Tree) :
    (collected ds).map Tree.name = (ds.map Tree.name).eraseDups := by
  have hnames : ∀ name ∈ (ds.map Tree.name).eraseDups,
      (chosen? ds name).map Tree.name = some name := by
    intro name hname
    obtain ⟨t, ht⟩ := exists_chosen? (List.mem_eraseDups.1 hname)
    rw [ht, Option.map_some, name_of_chosen? ht]
  rw [collected, List.map_filterMap, List.filterMap_congr hnames, List.filterMap_some]

theorem chosen?_of_mem_collected {ds : List Tree} {t : Tree} (h : t ∈ collected ds) :
    chosen? ds t.name = some t := by
  obtain ⟨name, -, ht⟩ := List.mem_filterMap.1 h
  rwa [name_of_chosen? ht]

/-! ## The first repetition -/

theorem addDefine_eq_error {tree : Tree} {pos : Position} {ds : List Tree} {e : ParseError}
    (h : Parser.addDefine tree pos ds = .error e) : e = ⟨.definedTwice tree.name, pos⟩ := by
  induction ds with
  | nil => exact absurd h (by simp [Parser.addDefine])
  | cons t rest ih =>
    rw [Parser.addDefine] at h
    split at h
    · split at h
      · exact absurd h (by simp)
      · split at h
        · exact absurd h (by simp)
        · exact (Except.error.inj h).symm
    · rcases monad_bind_eq_error.1 h with h | ⟨_, _, h⟩
      · exact ih h
      · exact absurd h (by simp)

/-- Adding definitions stops at the first one that repeats a name with content. -/
theorem addDefines_collected_eq_error {placed : List (Tree × Position)} {ds : List Tree}
    {e : ParseError} (hds : Compatible ds) (h : addDefines placed (collected ds) = .error e) :
    ∃ front t pos back, placed = front ++ (t, pos) :: back ∧ e = ⟨.definedTwice t.name, pos⟩ ∧
      Compatible (ds ++ front.map Prod.fst) ∧ ¬ Compatible (ds ++ front.map Prod.fst ++ [t]) := by
  induction placed generalizing ds with
  | nil => exact absurd h (by simp [addDefines, pure, Except.pure])
  | cons first rest ih =>
    obtain ⟨tree, pos⟩ := first
    rw [addDefines, List.foldlM_cons] at h
    rcases monad_bind_eq_error.1 h with h | ⟨more, hadd, h⟩
    · refine ⟨[], tree, pos, rest, rfl, addDefine_eq_error h, ?_, ?_⟩
      · rwa [List.map_nil, List.append_nil]
      · intro hboth
        rw [List.map_nil, List.append_nil] at hboth
        rw [(addDefine_collected_iff hds).2 ⟨hboth, rfl⟩] at h
        exact absurd h (by simp)
    · obtain ⟨hmore, rfl⟩ := (addDefine_collected_iff hds).1 hadd
      obtain ⟨front, t, place, back, rfl, he, hfront, ht⟩ := ih hmore h
      refine ⟨(tree, pos) :: front, t, place, back, rfl, he, ?_, ?_⟩
      · simpa using hfront
      · simpa using ht

end Grammar

/-! ## Whole sources -/

namespace Parser

/-- What the grammar derives is parsed, but for the definitions. -/
theorem parse_eq_addDefines {functions : FuncTable} {name source : String}
    {tokens : List PlacedToken} {nodes : List Node} {ds : List Tree}
    (htokens : tokensOf source = .ok tokens)
    (h : IsNodes functions.defines true tokens nodes ds) :
    ∃ placed, placed.map Prod.fst = ds ∧ parse functions.defines name source
      = (addDefines placed []).map fun defines => ⟨⟨name, nodes⟩, defines⟩ := by
  obtain ⟨placed, hplaced, htakes⟩ := takes_nodes h
  refine ⟨placed, hplaced, ?_⟩
  have hrun : run functions.defines .initial tokens
      = (addDefines placed []).map fun defines => ⟨nodes, [], defines, .outside⟩ :=
    htakes [] [] (fun _ => rfl) []
  unfold parse
  rw [htokens]
  show parseTokens functions.defines name tokens = _
  unfold parseTokens
  rw [hrun]
  cases addDefines placed [] with
  | error e => rfl
  | ok defines => rfl

/-- **Definitions inside one source.** Of a source with a derivation, consider the bodies of its
definitions and blocks in the order in which their ends are read. Parsing fails with a repeated
definition exactly if a name has two bodies with content, and then it names the first body that
repeats a name with content. Otherwise it succeeds, and gives each name once, in the order of first
appearance, with its only body that has content, or with its first body if none has. -/
theorem parse_of_isNodes {functions : FuncTable} {name source : String} {tokens : List PlacedToken}
    {nodes : List Node} {ds : List Tree} (htokens : tokensOf source = .ok tokens)
    (h : IsNodes functions.defines true tokens nodes ds) :
    ((∃ twice pos, parse functions.defines name source = .error ⟨.definedTwice twice, pos⟩)
      ↔ ∃ n, 2 ≤ (contents ds n).length) ∧
    (∀ twice pos, parse functions.defines name source = .error ⟨.definedTwice twice, pos⟩ →
      ∃ front t back, ds = front ++ t :: back ∧ t.name = twice ∧ t.isEmpty = false ∧
        (contents front twice).length = 1 ∧ ∀ n, (contents front n).length ≤ 1) ∧
    ((∀ n, (contents ds n).length ≤ 1) →
      ∃ defines, parse functions.defines name source = .ok ⟨⟨name, nodes⟩, defines⟩ ∧
        (defines.map Tree.name).Nodup ∧
        defines.map Tree.name = (ds.map Tree.name).eraseDups ∧
        ∀ d ∈ defines, contents ds d.name = [d] ∨
          contents ds d.name = [] ∧ (ds.filter fun t => t.name = d.name).head? = some d) := by
  obtain ⟨placed, rfl, hparse⟩ := @parse_eq_addDefines _ name _ _ _ _ htokens h
  rw [hparse]
  have hgood : (∀ n, (contents (placed.map Prod.fst) n).length ≤ 1) →
      addDefines placed [] = .ok (collected (placed.map Prod.fst)) :=
    fun hone => (addDefines_collected_iff .nil).2 ⟨compatible_iff_contents.2 hone, rfl⟩
  refine ⟨⟨?_, ?_⟩, ?_, ?_⟩
  · rintro ⟨twice, pos, herror⟩
    refine Classical.byContradiction fun hnone => ?_
    rw [hgood fun n => Nat.le_of_not_lt fun hn => hnone ⟨n, hn⟩] at herror
    exact absurd herror (by simp [Except.map])
  · rintro ⟨n, hn⟩
    cases hadd : addDefines placed [] with
    | ok defines =>
      have hone := compatible_iff_contents.1 ((addDefines_collected_iff .nil).1 hadd).1 n
      rw [List.nil_append] at hone
      omega
    | error e =>
      obtain ⟨front, t, pos, back, -, rfl, -⟩ := addDefines_collected_eq_error .nil hadd
      exact ⟨t.name, pos, rfl⟩
  · intro twice pos herror
    cases hadd : addDefines placed [] with
    | ok defines =>
      rw [hadd] at herror
      exact absurd herror (by simp [Except.map])
    | error e =>
      obtain ⟨front, t, place, back, rfl, rfl, hfront, ht⟩ := addDefines_collected_eq_error .nil hadd
      rw [List.nil_append] at hfront ht
      rw [hadd] at herror
      cases herror
      -- The body repeats one of those before it, and both have content.
      obtain ⟨u, hu, hname, hempty⟩ : ∃ u ∈ front.map Prod.fst, u.name = t.name ∧
          ¬ (u.isEmpty = true ∨ t.isEmpty = true) := by
        refine Classical.byContradiction fun hnone => ht (compatible_append.2 ⟨hfront, ?_⟩)
        intro u hu hname
        exact Classical.byContradiction fun hempty => hnone ⟨u, hu, hname, hempty⟩
      rw [not_or, Bool.not_eq_true, Bool.not_eq_true] at hempty
      have hone := compatible_iff_contents.1 hfront
      have hmem : u ∈ contents (front.map Prod.fst) t.name := mem_contents.2 ⟨hu, hname, hempty.1⟩
      refine ⟨front.map Prod.fst, t, back.map Prod.fst, by simp, rfl, hempty.2, ?_, hone⟩
      exact Nat.le_antisymm (hone t.name) (List.length_pos_of_mem hmem)
  · intro hone
    refine ⟨_, by rw [hgood hone]; rfl, ?_, names_collected _, ?_⟩
    · rw [names_collected]
      exact nodup_eraseDups _
    · intro d hd
      exact contents_of_chosen? (chosen?_of_mem_collected hd) (hone _)

/-- A blank definition and a block with content give the name the content of the block. -/
theorem parse_of_isNodes_placeholder :
    ∃ nodes, parse (FuncTable.defines .empty) "page"
      "\x7b\x7bdefine \"a\"\x7d\x7d \x7b\x7bend\x7d\x7d\x7b\x7bblock \"a\" .\x7d\x7dx\x7b\x7bend\x7d\x7d"
        = .ok ⟨⟨"page", nodes⟩, [⟨"a", [.text "x"]⟩]⟩ := by
  have htokens : tokensOf
      "\x7b\x7bdefine \"a\"\x7d\x7d \x7b\x7bend\x7d\x7d\x7b\x7bblock \"a\" .\x7d\x7dx\x7b\x7bend\x7d\x7d"
        = .ok ([] ++ (action ⟨1, 1⟩ [⟨.keyword .defineWord, ⟨1, 3⟩⟩, ⟨.string "a", ⟨1, 10⟩⟩] ⟨1, 13⟩
            ++ ([] ++ [⟨.text " ", ⟨1, 15⟩⟩]) ++ action ⟨1, 16⟩ [⟨.keyword .endWord, ⟨1, 18⟩⟩] ⟨1, 21⟩)
          ++ (action ⟨1, 23⟩ [⟨.keyword .blockWord, ⟨1, 25⟩⟩, ⟨.string "a", ⟨1, 31⟩⟩, ⟨.dot, ⟨1, 35⟩⟩]
              ⟨1, 36⟩
            ++ ([] ++ [⟨.text "x", ⟨1, 38⟩⟩]) ++ action ⟨1, 39⟩ [⟨.keyword .endWord, ⟨1, 41⟩⟩] ⟨1, 44⟩)) := by
    with_unfolding_all rfl
  have hdot : IsPipeline (FuncTable.defines .empty) [⟨.dot, ⟨1, 35⟩⟩]
      ⟨⟨1, 35⟩, [⟨⟨1, 35⟩, [.dot]⟩]⟩ :=
    .commands (.one (.operands (.snoc .nil (.value .dot))))
  obtain ⟨-, -, hgood⟩ := @parse_of_isNodes _ "page" _ _ _ _ htokens
    (.node (.define .nil .mk (.node .nil .text) .mk)
      (.block (.mk (.given hdot)) (.node .nil .text) .mk))
  obtain ⟨defines, hparse, -, hnames, hchosen⟩ := hgood (compatible_iff_contents.1 (by
    unfold Compatible
    decide +kernel))
  have hx : contents [⟨"a", [.text " "]⟩, ⟨"a", [.text "x"]⟩] "a" = [⟨"a", [.text "x"]⟩] := by
    with_unfolding_all rfl
  have hone : ["a", "a"].eraseDups = ["a"] := by decide +kernel
  obtain ⟨d, rfl, hname⟩ := List.map_eq_singleton_iff.1 (hnames.trans hone)
  obtain hd | ⟨hnone, -⟩ := hchosen d List.mem_cons_self
  · rw [hname] at hd
    obtain rfl : _ = d := List.singleton_inj.1 (hx.symm.trans hd)
    exact ⟨_, hparse⟩
  · rw [hname] at hnone
    exact absurd (hx.symm.trans hnone) (List.cons_ne_nil _ _)

end Parser

end Stencil
