/-
Sources one behind the other.

Two sources that are parsed, none of them with a trim marker, are parsed together to what they are
parsed to alone: the nodes of the one and then those of the other, and so with the definitions. Where
the one ends with a text and the other begins with one, the two texts are one node. The only
characters that could be read in another way are two braces at the seam.
-/
import Stencil.Proofs.GrammarOfRuns
import Stencil.Proofs.RepeatedDefinitions
import Stencil.Proofs.Stretches
import Stencil.Proofs.UnplacedRuns

set_option autoImplicit false

namespace Stencil

open Segments Stretch Stencil.Grammar

/-! ## Texts at the ends -/

/-- The texts of a source, which may be empty, before, between and behind its actions. -/
def textsOf (source : String) : List (List Char) :=
  match ofSource source with
  | .ok segments => segments.first.chars :: segments.others.map fun p => p.2.chars
  | .error _ => []

/-- The text that a source begins with. It is empty if there is an action. -/
def textAtStart (source : String) : List Char := (textsOf source).head?.getD []

/-- The text that a source ends with. It is empty if there is an action. -/
def textAtEnd (source : String) : List Char := (textsOf source).getLast?.getD []

/-- A text as a list of nodes. -/
def textNodes (t : List Char) : List Node := if t = [] then [] else [.text (String.ofList t)]

/-- Texts one behind the other have no opening delimiter if no brace meets another one. -/
theorem not_infix_append {s t : List Char} {c : Char} (hs : ¬ [c, c] <:+: s) (ht : ¬ [c, c] <:+: t)
    (hseam : ¬ (s.getLast? = some c ∧ t.head? = some c)) : ¬ [c, c] <:+: s ++ t := by
  rw [List.infix_append_iff]
  rintro (h | h | ⟨l₁, l₂, hl, h₁, h₂⟩)
  · exact hs h
  · exact ht h
  · cases l₁ with
    | nil => exact ht (hl ▸ h₂.isInfix)
    | cons d l₁ =>
      obtain ⟨rfl, hrest⟩ := List.cons.inj hl
      cases l₁ with
      | nil =>
        -- One brace ends the first text, and the other one begins the second.
        rw [show l₂ = [c] from hrest.symm] at h₂
        obtain ⟨before, rfl⟩ := h₁
        obtain ⟨behind, rfl⟩ := h₂
        exact hseam ⟨List.getLast?_concat .., rfl⟩
      | cons e l₁ =>
        obtain ⟨rfl, hnil⟩ := List.cons.inj hrest
        rw [(List.append_eq_nil_iff.1 hnil.symm).1] at h₁
        exact hs h₁.isInfix

/-- A text in front of an action stays one with another text before it. -/
theorem noOpening_append {s t : List Char} (hs : ¬ ['\x7b', '\x7b'] <:+: s) (ht : NoOpening t)
    (hseam : s.getLast? = some '\x7b' → t ≠ [] ∧ t.head? ≠ some '\x7b') : NoOpening (s ++ t) := by
  obtain ⟨hoccurs, hlast⟩ := ht
  have hinfix : ¬ ['\x7b', '\x7b'] <:+: t := fun h => by
    rw [Text.occurs_iff.2 h] at hoccurs
    cases hoccurs
  refine ⟨?_, fun h => ?_⟩
  · rw [Bool.eq_false_iff]
    exact fun h => not_infix_append hs hinfix (fun h => (hseam h.1).2 h.2) (Text.occurs_iff.1 h)
  · rw [List.getLast?_append] at h
    cases hnil : t.getLast? with
    | none =>
      rw [hnil] at h
      exact (hseam h).1 (List.getLast?_eq_none_iff.1 hnil)
    | some c =>
      rw [hnil] at h
      exact hlast (hnil.trans h)

namespace MadeOf

variable {a b source : String} {ss : List Stretch} {last : List Char}

theorem textsOf_eq (h : MadeOf source ss last) : textsOf source = ss.map Stretch.text ++ [last] := by
  obtain ⟨segments, hsegments, htexts, -⟩ := h.exists_segments
  rw [textsOf, hsegments, ← htexts]

theorem textAtStart_eq (h : MadeOf source ss last) :
    textAtStart source = (Split.ofStretches ss last).first := by
  rw [textAtStart, h.textsOf_eq, ← Split.texts_ofStretches]
  rfl

theorem textAtEnd_eq (h : MadeOf source ss last) : textAtEnd source = last := by
  rw [textAtEnd, h.textsOf_eq, List.getLast?_concat]
  rfl

end MadeOf

/-! ## The tokens at the seam -/

namespace MadeOf

variable {a b : String} {ss ss' : List Stretch} {last last' : List Char}

/-- If no delimiter is made at the seam, the two texts there are one, and all else stays. -/
theorem exists_append (ha : MadeOf a ss last) (hb : MadeOf b ss' last')
    (hseam : ¬ (a.toList.getLast? = some '\x7b' ∧ b.toList.head? = some '\x7b')) :
    ∃ ss₂ last₂ behind, MadeOf (a ++ b) ss₂ last₂
      ∧ tokensOfAll ss' last' = tokensOfText (textAtStart b) ++ behind
      ∧ tokensOfAll ss₂ last₂
        = ss.flatMap Stretch.tokens ++ tokensOfText (textAtEnd a ++ textAtStart b) ++ behind := by
  have hends : last.getLast? = some '\x7b' → (charsOf ss' last').head? ≠ some '\x7b' := by
    intro hlast hhead
    refine hseam ⟨?_, ?_⟩
    · rw [ha.chars, String.toList_ofList, charsOf, List.getLast?_append, hlast]
      rfl
    · rw [hb.chars, String.toList_ofList, hhead]
  have hchars : a ++ b = String.ofList (charsOf ss last ++ charsOf ss' last') := by
    rw [String.ofList_append, ← ha.chars, ← hb.chars]
  rw [hb.textAtStart_eq, ha.textAtEnd_eq]
  cases ss' with
  | nil =>
    refine ⟨ss, last ++ last', [], ⟨ha.plain, ?_, ?_⟩, ?_, ?_⟩
    · exact not_infix_append ha.ends hb.ends fun h => hends h.1 h.2
    · rw [hchars, charsOf, charsOf, charsOf, List.append_assoc]
      rfl
    · exact (List.append_nil _).symm
    · exact (List.append_nil _).symm
  | cons s more =>
    obtain ⟨hs, hmore⟩ := List.forall_mem_cons.1 hb.plain
    obtain ⟨body, hbody, -⟩ := (s.action.isRead_iff.1 hs.action.read).again
    have htext : NoOpening (last ++ s.text) := by
      refine noOpening_append ha.ends hs.text fun hlast => ?_
      -- Without a text in front of it, the action's own brace would be the first character.
      have hhead : (s.text ++ '\x7b' :: '\x7b' :: body ++ charsOf more last').head? ≠ some '\x7b' := by
        rw [← hbody]
        simpa [charsOf, Stretch.chars] using hends hlast
      cases htext : s.text with
      | nil => exact absurd (by rw [htext]; rfl) hhead
      | cons c t =>
        rw [htext] at hhead
        exact ⟨List.cons_ne_nil c t, hhead⟩
    refine ⟨ss ++ ⟨last ++ s.text, s.action⟩ :: more, last',
      s.action.tokens ++ tokensOfAll more last', ⟨?_, hb.ends, ?_⟩, ?_, ?_⟩
    · intro r hr
      rcases List.mem_append.1 hr with hr | hr
      · exact ha.plain r hr
      · rcases List.mem_cons.1 hr with rfl | hr
        · exact ⟨htext, hs.action⟩
        · exact hmore r hr
    · rw [hchars]
      simp [charsOf, Stretch.chars]
    · simp [tokensOfAll, Stretch.tokens, Split.ofStretches]
    · simp [tokensOfAll, Stretch.tokens, Split.ofStretches]

end MadeOf

/-! ## Nodes one behind the other -/

namespace Grammar

variable {defined : String → Bool}

theorem exists_cons_of_isBranches : ∀ {start : Position} {ts : List PlacedToken} {bs : List Branch}
    {ds : List Tree}, IsBranches defined start ts bs ds → ∃ pos us, ts = ⟨.actionStart, pos⟩ :: us
  | _, _, _, _, .first (.mk _) _ => ⟨_, _, rfl⟩
  | _, _, _, _, .further hbs _ _ => by
    obtain ⟨pos, us, rfl⟩ := exists_cons_of_isBranches hbs
    exact ⟨pos, _, by rw [List.cons_append, List.cons_append]⟩

theorem exists_concat_of_isClause {k : Keyword} {ts : List PlacedToken} (h : IsClause k ts) :
    ∃ us pos, ts = us ++ [⟨.actionEnd, pos⟩] := by
  cases h with
  | mk => exact ⟨_, _, rfl⟩

/-- A node is a text, or its tokens begin and end with the delimiters of actions. -/
theorem isNode_cases {ts : List PlacedToken} {n : Node} {ds : List Tree}
    (h : IsNode defined ts n ds) :
    (∃ s pos, ts = [⟨.text s, pos⟩] ∧ n = .text s ∧ ds = []) ∨
      (∃ pos us, ts = ⟨.actionStart, pos⟩ :: us) ∧ ∃ us pos, ts = us ++ [⟨.actionEnd, pos⟩] := by
  cases h with
  | text => exact .inl ⟨_, _, rfl, rfl, rfl⟩
  | output _ => exact .inr ⟨⟨_, _, rfl⟩, _, _, rfl⟩
  | conditional hbs _ hend =>
    obtain ⟨pos, us, rfl⟩ := exists_cons_of_isBranches hbs
    obtain ⟨vs, close, rfl⟩ := exists_concat_of_isClause hend
    exact .inr ⟨⟨pos, _, by rw [List.cons_append, List.cons_append]⟩, _, close,
      (List.append_assoc ..).symm⟩
  | rebind hhead _ _ hend =>
    obtain ⟨_⟩ := hhead
    obtain ⟨vs, close, rfl⟩ := exists_concat_of_isClause hend
    exact .inr ⟨⟨_, _, rfl⟩, _, close, (List.append_assoc ..).symm⟩
  | call hhead =>
    obtain ⟨_⟩ := hhead
    exact .inr ⟨⟨_, _, rfl⟩, _, _, rfl⟩
  | block hhead _ hend =>
    obtain ⟨_⟩ := hhead
    obtain ⟨vs, close, rfl⟩ := exists_concat_of_isClause hend
    exact .inr ⟨⟨_, _, rfl⟩, _, close, (List.append_assoc ..).symm⟩

/-- Nodes that end with a text token end with its node. -/
theorem isNodes_concat_text {outermost : Bool} {ts : List PlacedToken} {s : String} {pos : Position}
    {ns : List Node} {ds : List Tree}
    (h : IsNodes defined outermost (ts ++ [⟨.text s, pos⟩]) ns ds) :
    ∃ ms, ns = ms ++ [.text s] ∧ IsNodes defined outermost ts ms ds := by
  generalize htokens : ts ++ [⟨.text s, pos⟩] = all at h
  cases h with
  | nil => exact absurd htokens (by simp)
  | node hns hn =>
    rcases isNode_cases hn with ⟨s', pos', rfl, rfl, rfl⟩ | ⟨-, us, close, rfl⟩
    · obtain ⟨rfl, hlast⟩ := List.append_inj' htokens rfl
      obtain ⟨hsame, -⟩ := PlacedToken.mk.inj (List.cons.inj hlast).1
      rw [Token.text.inj hsame, List.append_nil]
      exact ⟨_, rfl, hns⟩
    · rw [← List.append_assoc] at htokens
      have hlast := (List.append_inj' htokens rfl).2
      simp at hlast
  | define _ _ _ hend =>
    obtain ⟨us, close, rfl⟩ := exists_concat_of_isClause hend
    rw [← List.append_assoc, ← List.append_assoc] at htokens
    have hlast := (List.append_inj' htokens rfl).2
    simp at hlast

theorem eq_nil_of_isNodes {outermost : Bool} {ns : List Node} {ds : List Tree}
    (h : IsNodes defined outermost [] ns ds) : ns = [] ∧ ds = [] := by
  generalize htokens : ([] : List PlacedToken) = ts at h
  cases h with
  | nil => exact ⟨rfl, rfl⟩
  | node _ hn =>
    rcases isNode_cases hn with ⟨s, pos, rfl, -⟩ | ⟨⟨pos, us, rfl⟩, -⟩
    · simp at htokens
    · simp at htokens
  | define _ hhead _ _ =>
    obtain ⟨_⟩ := hhead
    simp [action] at htokens

/-- Nodes that begin with a text token begin with its node. -/
theorem isNodes_cons_text : ∀ {all : List PlacedToken} {ns : List Node} {ds : List Tree}
    {outermost : Bool}, IsNodes defined outermost all ns ds → ∀ {ts : List PlacedToken} {s : String}
    {pos : Position}, all = ⟨.text s, pos⟩ :: ts →
    ∃ ms, ns = .text s :: ms ∧ IsNodes defined outermost ts ms ds
  | _, _, _, _, .nil => fun h => absurd h.symm (List.cons_ne_nil _ _)
  | _, _, _, _, .node hns hn => by
    intro h
    rcases List.append_eq_cons_iff.1 h with ⟨hnil, rfl⟩ | ⟨us, hcons, rfl⟩
    · obtain ⟨rfl, rfl⟩ := eq_nil_of_isNodes (hnil ▸ hns)
      rcases isNode_cases hn with ⟨s', pos', hone, rfl, rfl⟩ | ⟨⟨pos', us, hone⟩, -⟩
      · obtain ⟨hsame, rfl⟩ := List.cons.inj hone
        obtain ⟨htext, -⟩ := PlacedToken.mk.inj hsame
        exact ⟨[], by rw [Token.text.inj htext]; rfl, .nil⟩
      · cases hone
    · obtain ⟨ms, rfl, hms⟩ := isNodes_cons_text hns hcons
      exact ⟨_, rfl, .node hms hn⟩
  | _, _, _, _, .define hns hhead hbody hend => by
    intro h
    rcases List.append_eq_cons_iff.1 h with ⟨-, hheader⟩ | ⟨us, hcons, rfl⟩
    · obtain ⟨_⟩ := hhead
      cases hheader
    · obtain ⟨ms, rfl, hms⟩ := isNodes_cons_text hns hcons
      exact ⟨ms, rfl, .define hms hhead hbody hend⟩

/-- Nodes in front of nodes of the same place are nodes of that place. -/
theorem isNodes_append : ∀ {us : List PlacedToken} {ms : List Node} {ds' : List Tree}
    {outermost : Bool}, IsNodes defined outermost us ms ds' → ∀ {ts : List PlacedToken}
    {ns : List Node} {ds : List Tree}, IsNodes defined outermost ts ns ds →
      IsNodes defined outermost (ts ++ us) (ns ++ ms) (ds ++ ds')
  | _, _, _, _, .nil => by
    intro h
    rw [List.append_nil, List.append_nil, List.append_nil]
    exact h
  | _, _, _, _, .node hns hn => by
    intro h
    rw [← List.append_assoc, ← List.append_assoc, ← List.append_assoc]
    exact .node (isNodes_append hns h) hn
  | _, _, _, _, @IsNodes.define _ us _ _ _ _ _ _ ds' _ hns hhead hbody hend => by
    intro h
    rw [← List.append_assoc _ us, ← List.append_assoc _ ds']
    exact .define (isNodes_append hns h) hhead hbody hend

end Grammar

/-! ## Definitions one behind the other -/

namespace Grammar

variable {ds ds' : List Tree}

theorem mem_names_collected {name : String} :
    name ∈ (collected ds).map Tree.name ↔ name ∈ ds.map Tree.name := by
  rw [names_collected, List.mem_eraseDups]

theorem filter_name_of_not_mem {name : String} (h : name ∉ ds.map Tree.name) :
    ds.filter (fun t => t.name = name) = [] :=
  List.filter_eq_nil_iff.2 fun t ht hname => h (List.mem_map.2 ⟨t, ht, by simpa using hname⟩)

theorem chosen?_append_of_not_mem {name : String} (h : name ∉ ds'.map Tree.name) :
    chosen? (ds ++ ds') name = chosen? ds name := by
  unfold chosen?
  rw [List.filter_append, filter_name_of_not_mem h, List.append_nil]

theorem chosen?_append_of_not_mem_left {name : String} (h : name ∉ ds.map Tree.name) :
    chosen? (ds ++ ds') name = chosen? ds' name := by
  unfold chosen?
  rw [List.filter_append, filter_name_of_not_mem h, List.nil_append]

/-- Definitions of other names are collected behind those that are there. -/
theorem collected_append (h : ∀ name ∈ ds.map Tree.name, name ∉ ds'.map Tree.name) :
    collected (ds ++ ds') = collected ds ++ collected ds' := by
  have hremove : (ds'.map Tree.name).removeAll (ds.map Tree.name) = ds'.map Tree.name := by
    refine List.filter_eq_self.2 fun name hname => ?_
    have hnot : name ∉ ds.map Tree.name := fun hmem => h name hmem hname
    simpa using hnot
  rw [collected, List.map_append, List.eraseDups_append, List.filterMap_append, hremove]
  congr 1
  · refine List.filterMap_congr fun name hname => ?_
    exact chosen?_append_of_not_mem (h name (List.mem_eraseDups.1 hname))
  · refine List.filterMap_congr fun name hname => ?_
    exact chosen?_append_of_not_mem_left fun hmem => h name hmem (List.mem_eraseDups.1 hname)

theorem compatible_append_of_names (hds : Compatible ds) (hds' : Compatible ds')
    (h : ∀ name ∈ ds.map Tree.name, name ∉ ds'.map Tree.name) : Compatible (ds ++ ds') := by
  refine List.pairwise_append.2 ⟨hds, hds', fun t ht u hu hname => ?_⟩
  exact absurd (hname ▸ List.mem_map_of_mem hu) (h t.name (List.mem_map_of_mem ht))

end Grammar

/-! ## What the nodes put out -/

namespace Scope

variable {s : Scope} {calls : Calls} {dot : Value}

/-- Nodes put out what the first of them do, and then what the others do. -/
theorem nodes_append (ns ms : List Node) :
    s.nodes calls dot (ns ++ ms)
      = s.nodes calls dot ns >>= fun x => s.nodes calls dot ms >>= fun y => .ok (x ++ y) := by
  induction ns with
  | nil =>
    rw [List.nil_append, nodes]
    cases s.nodes calls dot ms with
    | error e => rfl
    | ok y => exact congrArg Except.ok (String.empty_append).symm
  | cons n ns ih =>
    rw [List.cons_append, nodes, nodes, ih]
    cases s.node calls dot n with
    | error e => rfl
    | ok text =>
      cases s.nodes calls dot ns with
      | error e => rfl
      | ok x =>
        cases s.nodes calls dot ms with
        | error e => rfl
        | ok y => exact congrArg Except.ok String.append_assoc.symm

theorem nodes_textNodes (t : List Char) :
    s.nodes calls dot (textNodes t) = .ok (String.ofList t) := by
  unfold textNodes
  split
  · rename_i hnil
    rw [hnil, nodes]
  · rw [nodes, node, nodes]
    exact congrArg Except.ok String.append_empty

/-- Two texts put out the same when they are one. -/
theorem nodes_joined (t u : List Char) (ns ms : List Node) :
    s.nodes calls dot (ns ++ textNodes (t ++ u) ++ ms)
      = s.nodes calls dot (ns ++ textNodes t) >>= fun x =>
          s.nodes calls dot (textNodes u ++ ms) >>= fun y => .ok (x ++ y) := by
  rw [nodes_append, nodes_append, nodes_append, nodes_append, nodes_textNodes, nodes_textNodes,
    nodes_textNodes, String.ofList_append]
  cases s.nodes calls dot ns with
  | error e => rfl
  | ok x =>
    cases s.nodes calls dot ms with
    | error e => rfl
    | ok y =>
      refine congrArg Except.ok ?_
      simp only [String.append_assoc]

end Scope

namespace Grammar

variable {defined : String → Bool}

theorem isNodes_textNodes (t : List Char) :
    IsNodes defined true (unplacedTokens (tokensOfText t)) (textNodes t) [] := by
  unfold tokensOfText textNodes
  split
  · exact .nil
  · exact .node .nil .text

/-- Nodes whose tokens end with those of a text end with the text. -/
theorem isNodes_before_text {ts : List PlacedToken} {t : List Char} {ns : List Node}
    {ds : List Tree} (h : IsNodes defined true (ts ++ unplacedTokens (tokensOfText t)) ns ds) :
    ∃ ms, ns = ms ++ textNodes t ∧ IsNodes defined true ts ms ds := by
  unfold tokensOfText at h
  unfold textNodes
  by_cases ht : t = []
  · rw [if_pos ht, unplacedTokens, List.map_nil, List.append_nil] at h
    exact ⟨ns, by rw [if_pos ht, List.append_nil], h⟩
  · rw [if_neg ht] at h ⊢
    exact isNodes_concat_text h

/-- Nodes whose tokens begin with those of a text begin with the text. -/
theorem isNodes_behind_text {ts : List PlacedToken} {t : List Char} {ns : List Node}
    {ds : List Tree} (h : IsNodes defined true (unplacedTokens (tokensOfText t) ++ ts) ns ds) :
    ∃ ms, ns = textNodes t ++ ms ∧ IsNodes defined true ts ms ds := by
  unfold tokensOfText at h
  unfold textNodes
  by_cases ht : t = []
  · rw [if_pos ht] at h ⊢
    exact ⟨ns, rfl, h⟩
  · rw [if_neg ht] at h ⊢
    exact isNodes_cons_text h rfl

end Grammar

/-! ## Two sources -/

theorem unplacedTokens_append (ts us : List Token) :
    unplacedTokens (ts ++ us) = unplacedTokens ts ++ unplacedTokens us := List.map_append

namespace MadeOf

variable {functions : FuncTable} {name source : String} {ss : List Stretch} {last : List Char}

/-- A source is parsed to what the grammar derives from the tokens of its texts and actions. -/
theorem exists_isNodes (h : MadeOf source ss last) {parsed : ParsedSource}
    (hparse : Parser.parse functions.defines name source = .ok parsed) :
    ∃ ds, IsNodes functions.defines true (unplacedTokens (tokensOfAll ss last))
        (parsed.main.root.map Node.unplaced) ds
      ∧ Compatible ds ∧ parsed.defines.map Tree.unplaced = collected ds := by
  have hunplaced : parsed.unplaced
      = ⟨⟨name, parsed.main.root.map Node.unplaced⟩, parsed.defines.map Tree.unplaced⟩ := by
    rw [ParsedSource.unplaced, ← Parser.main_name_of_parse hparse, ← Tree.unplaced_mk]
  have hrun := h.exists_parse_iff.1 ⟨parsed, hparse, hunplaced⟩
  exact isNodes_of_run hrun rfl rfl

theorem exists_parse_of_isNodes (h : MadeOf source ss last) {nodes : List Node} {ds : List Tree}
    (hnodes : IsNodes functions.defines true (unplacedTokens (tokensOfAll ss last)) nodes ds)
    (hcompatible : Compatible ds) :
    ∃ parsed, Parser.parse functions.defines name source = .ok parsed
      ∧ parsed.unplaced = ⟨⟨name, nodes⟩, collected ds⟩ :=
  h.exists_parse_iff.2 (Parser.run_of_isNodes hnodes hcompatible)

end MadeOf

namespace Parser

variable {functions : FuncTable} {name a b : String} {pa pb : ParsedSource}

/-- The names of definitions are those of the definitions that the grammar has derived. -/
theorem mem_names_iff {parsed : ParsedSource} {ds : List Tree}
    (h : parsed.defines.map Tree.unplaced = collected ds) {n : String} :
    n ∈ ds.map Tree.name ↔ n ∈ parsed.defines.map Tree.name := by
  have hnames : parsed.defines.map Tree.name = (collected ds).map Tree.name := by
    rw [← h, List.map_map]
    rfl
  rw [hnames, mem_names_collected]

/-- Two sources are parsed together to their nodes and definitions, those of the one first. -/
theorem exists_parse_append (ha : parse functions.defines name a = .ok pa)
    (hb : parse functions.defines name b = .ok pb) (hplain : Untrimmed a) (hplain' : Untrimmed b)
    (hnames : ∀ t ∈ pa.defines, ∀ u ∈ pb.defines, t.name ≠ u.name)
    (hseam : ¬ (a.toList.getLast? = some '\x7b' ∧ b.toList.head? = some '\x7b')) :
    ∃ pab ns ms, parse functions.defines name (a ++ b) = .ok pab
      ∧ pa.main.root.map Node.unplaced = ns ++ textNodes (textAtEnd a)
      ∧ pb.main.root.map Node.unplaced = textNodes (textAtStart b) ++ ms
      ∧ pab.main.root.map Node.unplaced = ns ++ textNodes (textAtEnd a ++ textAtStart b) ++ ms
      ∧ pab.defines.map Tree.unplaced = (pa.defines ++ pb.defines).map Tree.unplaced := by
  obtain ⟨ts, hts, -⟩ := parse_eq_ok_iff_tokens.1 ha
  obtain ⟨ts', hts', -⟩ := parse_eq_ok_iff_tokens.1 hb
  obtain ⟨ss, last, hmade⟩ := exists_madeOf hts hplain
  obtain ⟨ss', last', hmade'⟩ := exists_madeOf hts' hplain'
  obtain ⟨ss₂, last₂, behind, hmade₂, htokens', htokens₂⟩ := hmade.exists_append hmade' hseam
  obtain ⟨ds, hnodes, hcompatible, hds⟩ := hmade.exists_isNodes ha
  obtain ⟨ds', hnodes', hcompatible', hds'⟩ := hmade'.exists_isNodes hb
  -- The text at the seam is taken out of the nodes on either side and put in as one.
  rw [tokensOfAll, unplacedTokens_append, ← hmade.textAtEnd_eq] at hnodes
  rw [htokens', unplacedTokens_append] at hnodes'
  obtain ⟨ns, hns, hbefore⟩ := isNodes_before_text hnodes
  obtain ⟨ms, hms, hbehind⟩ := isNodes_behind_text hnodes'
  have hseamed := isNodes_append hbehind
    (isNodes_append (isNodes_textNodes (textAtEnd a ++ textAtStart b)) hbefore)
  rw [List.append_nil, ← unplacedTokens_append, ← unplacedTokens_append, ← htokens₂] at hseamed
  have hdisjoint : ∀ n ∈ ds.map Tree.name, n ∉ ds'.map Tree.name := by
    intro n hn hn'
    obtain ⟨t, ht, rfl⟩ := List.mem_map.1 ((mem_names_iff hds).1 hn)
    obtain ⟨u, hu, huname⟩ := List.mem_map.1 ((mem_names_iff hds').1 hn')
    exact hnames t ht u hu huname.symm
  obtain ⟨pab, hparse, hunplaced⟩ := hmade₂.exists_parse_of_isNodes hseamed
    (compatible_append_of_names hcompatible hcompatible' hdisjoint)
  rw [collected_append hdisjoint, ← hds, ← hds', ← List.map_append, ParsedSource.unplaced,
    Tree.unplaced, Node.unplacedAll_eq_map, ParsedSource.mk.injEq, Tree.mk.injEq] at hunplaced
  exact ⟨pab, ns, ms, hparse, hns, hms, hunplaced.1.2, hunplaced.2⟩

/-- **Parsing is compositional.** Two sources without trim markers that are parsed, that define no
name in common and make no delimiter at the seam are parsed together: to the nodes of the one and then
those of the other, with the texts at the seam made into one, and to the definitions of the one and
then those of the other, all up to positions. So together they put out what the one does and then what
the other does, or they fail as the first of them that does. -/
theorem parse_append (ha : parse functions.defines name a = .ok pa)
    (hb : parse functions.defines name b = .ok pb) (hplain : Untrimmed a) (hplain' : Untrimmed b)
    (hnames : ∀ t ∈ pa.defines, ∀ u ∈ pb.defines, t.name ≠ u.name)
    (hseam : ¬ (a.toList.getLast? = some '\x7b' ∧ b.toList.head? = some '\x7b')) :
    ∃ pab ns ms, parse functions.defines name (a ++ b) = .ok pab
      ∧ pa.main.root.map Node.unplaced = ns ++ textNodes (textAtEnd a)
      ∧ pb.main.root.map Node.unplaced = textNodes (textAtStart b) ++ ms
      ∧ pab.main.root.map Node.unplaced = ns ++ textNodes (textAtEnd a ++ textAtStart b) ++ ms
      ∧ pab.defines.map Tree.unplaced = (pa.defines ++ pb.defines).map Tree.unplaced
      ∧ ∀ (g : Group) (depth : Nat) (v : Value),
        unplacedResult (g.run depth pab.main v)
          = unplacedResult (do
              let x ← g.run depth pa.main v
              let y ← g.run depth pb.main v
              .ok (x ++ y)) := by
  obtain ⟨pab, ns, ms, hab, hns, hms, hnodes, hdefines⟩ :=
    exists_parse_append ha hb hplain hplain' hnames hseam
  refine ⟨pab, ns, ms, hab, hns, hms, hnodes, hdefines, fun g depth v => ?_⟩
  have hname := main_name_of_parse hab
  have hname' := main_name_of_parse ha
  have hname'' := main_name_of_parse hb
  cases depth with
  | zero =>
    rw [Group.run, Group.run, hname, hname']
    rfl
  | succ depth =>
    rw [unplacedResult_bind, g.run_unplaced, g.run_unplaced, hnodes, hns, hname, hname',
      Scope.nodes_joined]
    refine bind_congr fun x => ?_
    rw [unplacedResult_bind, g.run_unplaced, hms, hname'']
    rfl

/-- A brace that ends one source and the text that begins the other one are a single text. -/
theorem parse_append_brace :
    ∃ pab, parse (FuncTable.defines .empty) "page"
        ("\x7b\x7bblock \"n\" .\x7d\x7dx\x7b\x7bend\x7d\x7d, \x7b"
          ++ "me\x7d\x7b\x7bdefine \"m\"\x7d\x7dy\x7b\x7bend\x7d\x7d") = .ok pab
      ∧ pab.main.root.map Node.unplaced
        = [.call .start "n" (some ⟨.start, [⟨.start, [.dot]⟩]⟩), .text ", \x7bme\x7d"]
      ∧ pab.defines.map Tree.unplaced = [⟨"n", [.text "x"]⟩, ⟨"m", [.text "y"]⟩] := by
  have ha : parse (FuncTable.defines .empty) "page"
      "\x7b\x7bblock \"n\" .\x7d\x7dx\x7b\x7bend\x7d\x7d, \x7b"
        = .ok ⟨⟨"page", [.call ⟨1, 1⟩ "n" (some ⟨⟨1, 13⟩, [⟨⟨1, 13⟩, [.dot]⟩]⟩), .text ", \x7b"]⟩,
          [⟨"n", [.text "x"]⟩]⟩ := by
    with_unfolding_all rfl
  have hb : parse (FuncTable.defines .empty) "page"
      "me\x7d\x7b\x7bdefine \"m\"\x7d\x7dy\x7b\x7bend\x7d\x7d"
        = .ok ⟨⟨"page", [.text "me\x7d"]⟩, [⟨"m", [.text "y"]⟩]⟩ := by
    with_unfolding_all rfl
  have hend : textAtEnd "\x7b\x7bblock \"n\" .\x7d\x7dx\x7b\x7bend\x7d\x7d, \x7b"
      = [',', ' ', '\x7b'] := by decide +kernel
  have hstart : textAtStart "me\x7d\x7b\x7bdefine \"m\"\x7d\x7dy\x7b\x7bend\x7d\x7d"
      = ['m', 'e', '\x7d'] := by decide +kernel
  obtain ⟨pab, ns, ms, hparse, hns, hms, hnodes, hdefines, -⟩ :=
    parse_append ha hb (by decide +kernel) (by decide +kernel) (by decide +kernel) (by decide +kernel)
  refine ⟨pab, hparse, ?_, hdefines⟩
  rw [hend] at hns hnodes
  rw [hstart] at hms hnodes
  have hfront : [Node.call .start "n" (some ⟨.start, [⟨.start, [.dot]⟩]⟩)] = ns :=
    List.append_cancel_right (hns : [Node.call .start "n" _] ++ [.text ", \x7b"] = ns ++ _)
  have hback : [] = ms :=
    @List.append_cancel_left _ (textNodes ['m', 'e', '\x7d']) _ _ ((List.append_nil _).trans hms)
  rw [hnodes, ← hfront, ← hback]
  rfl

end Parser

end Stencil
