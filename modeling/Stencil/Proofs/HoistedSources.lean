/-
Sources without blocks.

Going through the stretches of a source and going through the texts and actions of its tokens is the
same, so what the grammar says about the latter holds of sources. The stretches that take the place of
others are read as what they stand for. If no name is defined twice, it does not matter which of the
definitions come first, and a group has the same templates from both sources.
-/
import Stencil.Proofs.Hoisting
import Stencil.Proofs.PageEntry

set_option autoImplicit false

namespace Stencil

open Segments Stretch Stencil.Grammar

/-! ## Stretches and their tokens -/

namespace Stretch

/-- A text as an item, unless it is empty. -/
def textUnits (t : List Char) : List (List PlacedToken) :=
  if t = [] then [] else [[⟨.text (String.ofList t), .start⟩]]

/-- An action as an item. A comment has no tokens and is none. -/
def actionUnits (ts : List Token) : List (List PlacedToken) :=
  if ts = [] then [] else [unplacedTokens ts]

/-- The text and the action of a stretch as items. -/
def units (s : Stretch) : List (List PlacedToken) := textUnits s.text ++ actionUnits s.action.tokens

theorem flatten_textUnits (t : List Char) :
    (textUnits t).flatten = unplacedTokens (tokensOfText t) := by
  unfold textUnits tokensOfText
  split <;> rfl

theorem flatten_units (s : Stretch) : s.units.flatten = unplacedTokens (Stretch.tokens s) := by
  have haction : (actionUnits s.action.tokens).flatten = unplacedTokens s.action.tokens := by
    unfold actionUnits
    split
    · rename_i hnil
      rw [hnil]
      rfl
    · exact List.flatten_singleton
  rw [units, List.flatten_append, flatten_textUnits, haction, Stretch.tokens, unplacedTokens_append]

theorem flatten_flatMap_units (ss : List Stretch) (last : List Char) :
    (ss.flatMap units ++ textUnits last).flatten = unplacedTokens (tokensOfAll ss last) := by
  rw [tokensOfAll, List.flatten_append, flatten_textUnits, unplacedTokens_append]
  congr 1
  induction ss with
  | nil => rfl
  | cons s more ih =>
    rw [List.flatMap_cons, List.flatMap_cons, List.flatten_append, ih, flatten_units,
      unplacedTokens_append]

theorem isUnit_of_mem_textUnits {t : List Char} {g : List PlacedToken} (h : g ∈ textUnits t) :
    IsUnit g := by
  unfold textUnits at h
  split at h
  · exact absurd h List.not_mem_nil
  · rw [List.mem_singleton.1 h]
    exact isUnit_text _ _

theorem isUnit_of_mem_units {s : Stretch} (hs : s.Plain) {g : List PlacedToken} (h : g ∈ s.units) :
    IsUnit g := by
  rcases List.mem_append.1 h with h | h
  · exact isUnit_of_mem_textUnits h
  · unfold actionUnits at h
    split at h
    · exact absurd h List.not_mem_nil
    · rename_i hne
      rcases (s.action.isRead_iff.1 hs.action.read).tokens with hnil | ⟨inner, htokens, hinner⟩
      · exact absurd hnil hne
      · rw [List.mem_singleton.1 h, htokens]
        have hinside : ∀ t ∈ unplacedTokens inner, t.token.isInside = true := by
          intro t ht
          obtain ⟨u, hu, rfl⟩ := List.mem_map.1 ht
          exact hinner u hu
        have haction : unplacedTokens (.actionStart :: inner ++ [.actionEnd])
            = Grammar.action .start (unplacedTokens inner) .start := by
          rw [unplacedTokens_append]
          rfl
        rw [haction]
        exact isUnit_action _ _ hinside

end Stretch

/-! ## Going through stretches -/

theorem Role.ofTokens_eq_block {ts : List Token} {name : String} (h : Role.ofTokens ts = .block name) :
    ∃ rest, ts = .actionStart :: .keyword .blockWord :: .string name :: rest := by
  unfold Role.ofTokens at h
  split at h
  case h_5 name' rest => exact ⟨rest, by rw [Role.block.inj h]⟩
  all_goals cases h

theorem map_token_unplacedTokens (ts : List Token) :
    (unplacedTokens ts).map PlacedToken.token = ts := by
  rw [unplacedTokens, List.map_map]
  exact List.map_id ts

/-- An open construct, with the texts and actions of what stands before it. -/
def Enclosing.units : Enclosing Stretch → Enclosing (List PlacedToken)
  | .kept => .kept
  | .block outer name => .block (outer.flatMap Stretch.units) name

namespace Hoisting

/-- How far the blocks have been taken out, in texts and actions. -/
def units (h : Hoisting Stretch) : Hoisting (List PlacedToken) where
  hoisted := h.hoisted.flatMap Stretch.units
  content := h.content.flatMap Stretch.units
  enclosing := h.enclosing.map Enclosing.units

theorem foldl_textUnits (t : List Char) (h : Hoisting (List PlacedToken)) :
    (textUnits t).foldl (step Grammar.items) h
      = ⟨h.hoisted, h.content ++ textUnits t, h.enclosing⟩ := by
  unfold textUnits
  split
  · rw [List.append_nil]
    rfl
  · rfl

/-- Behind its text, the action of a stretch makes the same step as the stretch. -/
theorem step_units {s : Stretch} (hts : s.action.tokens ≠ []) (hoisted content : List Stretch)
    (enclosing : List (Enclosing Stretch)) :
    step Grammar.items ⟨hoisted.flatMap Stretch.units,
        content.flatMap Stretch.units ++ textUnits s.text, enclosing.map Enclosing.units⟩
        (unplacedTokens s.action.tokens)
      = (step Stretch.items ⟨hoisted, content, enclosing⟩ s).units := by
  have hcontent : content.flatMap Stretch.units ++ textUnits s.text ++ [unplacedTokens s.action.tokens]
      = (content ++ [s]).flatMap Stretch.units := by
    rw [List.flatMap_append, List.flatMap_singleton, Stretch.units, actionUnits, if_neg hts,
      List.append_assoc]
  have hsame : Grammar.items.role (unplacedTokens s.action.tokens) = Stretch.items.role s :=
    congrArg Role.ofTokens (map_token_unplacedTokens s.action.tokens)
  cases hrole : Stretch.items.role s with
  | opens =>
    rw [step_opens hrole, step_opens (hsame.trans hrole), hcontent]
    rfl
  | other =>
    rw [step_other hrole, step_other (hsame.trans hrole), hcontent]
    rfl
  | ends =>
    cases enclosing with
    | nil =>
      rw [step_ends_nil hrole]
      exact (step_ends_nil (hsame.trans hrole)).trans (by rw [hcontent]; rfl)
    | cons o rest =>
      cases o with
      | kept =>
        rw [step_ends_kept hrole]
        exact (step_ends_kept (hsame.trans hrole)).trans (by rw [hcontent]; rfl)
      | block outer name =>
        have hhoisted : hoisted.flatMap Stretch.units
            ++ Grammar.items.definition name :: (content ++ [s]).flatMap Stretch.units
              = (hoisted ++ Stretch.items.definition name :: (content ++ [s])).flatMap
                Stretch.units := by
          rw [@List.flatMap_append _ _ hoisted]
          rfl
        rw [step_ends_block hrole]
        refine (step_ends_block (hsame.trans hrole)).trans ?_
        rw [hcontent]
        exact congrArg (Hoisting.mk · _ _) hhoisted
  | block name =>
    obtain ⟨rest, hblock⟩ := Role.ofTokens_eq_block hrole
    have hcall : (Stretch.items.call s).units
        = textUnits s.text ++ [callOf (unplacedTokens s.action.tokens)] := by
      show textUnits s.text ++ actionUnits (callTokens s.action.tokens) = _
      rw [hblock]
      rfl
    rw [step_block hrole, step_block (hsame.trans hrole), units, List.map_cons, Enclosing.units,
      List.flatMap_append, List.flatMap_singleton, hcall, List.append_assoc]
    rfl

/-- Going on with a stretch is going on with its text and its action. -/
theorem foldl_units (s : Stretch) (h : Hoisting Stretch) :
    s.units.foldl (step Grammar.items) h.units = (step Stretch.items h s).units := by
  obtain ⟨hoisted, content, enclosing⟩ := h
  rw [Stretch.units, List.foldl_append, foldl_textUnits]
  by_cases hts : s.action.tokens = []
  · have hrole : Stretch.items.role s = .other := congrArg Role.ofTokens hts
    have hunits : s.units = textUnits s.text := by
      rw [Stretch.units, actionUnits, if_pos hts, List.append_nil]
    rw [step_other hrole, actionUnits, if_pos hts, List.foldl_nil, units, units,
      List.flatMap_append, List.flatMap_singleton, hunits]
  · rw [actionUnits, if_neg hts, List.foldl_cons, List.foldl_nil]
    exact step_units hts hoisted content enclosing

/-- Going through stretches is going through their texts and actions. -/
theorem foldl_flatMap_units (ss : List Stretch) (h : Hoisting Stretch) :
    (ss.flatMap Stretch.units).foldl (step Grammar.items) h.units
      = (ss.foldl (step Stretch.items) h).units := by
  induction ss generalizing h with
  | nil => rfl
  | cons s more ih => rw [List.flatMap_cons, List.foldl_append, foldl_units, ih, List.foldl_cons]

end Hoisting

/-! ## What is read of the result -/

namespace Hoisting

/-- Says that all stretches that have been collected are of one kind. -/
structure All (P : Stretch → Prop) (h : Hoisting Stretch) : Prop where
  hoisted : ∀ s ∈ h.hoisted, P s
  content : ∀ s ∈ h.content, P s
  outer : ∀ o ∈ h.enclosing, ∀ outer name, o = .block outer name → ∀ s ∈ outer, P s

variable {P : Stretch → Prop}

/-- A step collects the stretch or the call for it, and perhaps a definition. -/
theorem All.step {s : Stretch} {h : Hoisting Stretch} (hh : h.All P)
    (hkept : (∀ name, Stretch.items.role s ≠ .block name) → P s)
    (hcall : ∀ name, Stretch.items.role s = .block name → P (Stretch.items.call s))
    (hdefinition : ∀ name, P (Stretch.items.definition name)) :
    (step Stretch.items h s).All P := by
  obtain ⟨hoisted, content, enclosing⟩ := h
  obtain ⟨hhoisted, hcontent, houter⟩ := hh
  have hmore : ∀ {r}, P r → ∀ t ∈ content ++ [r], P t := fun hr =>
    List.forall_mem_append.2 ⟨hcontent, List.forall_mem_singleton.2 hr⟩
  cases hrole : Stretch.items.role s with
  | opens =>
    have hs := hkept fun name h => by cases hrole.symm.trans h
    rw [step_opens hrole]
    exact ⟨hhoisted, hmore hs, List.forall_mem_cons.2 ⟨fun _ _ h => (by cases h), houter⟩⟩
  | other =>
    have hs := hkept fun name h => by cases hrole.symm.trans h
    rw [step_other hrole]
    exact ⟨hhoisted, hmore hs, houter⟩
  | block name =>
    rw [step_block hrole]
    refine ⟨hhoisted, fun r hr => absurd hr List.not_mem_nil, List.forall_mem_cons.2 ⟨?_, houter⟩⟩
    rintro outer name' h
    obtain ⟨rfl, -⟩ := Enclosing.block.inj h
    exact hmore (hcall name hrole)
  | ends =>
    have hs := hkept fun name h => by cases hrole.symm.trans h
    cases enclosing with
    | nil =>
      rw [step_ends_nil hrole]
      exact ⟨hhoisted, hmore hs, houter⟩
    | cons o rest =>
      obtain ⟨ho, hrest⟩ := List.forall_mem_cons.1 houter
      cases o with
      | kept =>
        rw [step_ends_kept hrole]
        exact ⟨hhoisted, hmore hs, hrest⟩
      | block outer name =>
        rw [step_ends_block hrole]
        refine ⟨List.forall_mem_append.2 ⟨hhoisted, ?_⟩, ho outer name rfl, hrest⟩
        exact List.forall_mem_cons.2 ⟨hdefinition name, hmore hs⟩

theorem all_initial : (initial : Hoisting Stretch).All P where
  hoisted _ h := absurd h List.not_mem_nil
  content _ h := absurd h List.not_mem_nil
  outer _ h := absurd h List.not_mem_nil

theorem All.foldl {ss : List Stretch} {h : Hoisting Stretch} (hh : h.All P)
    (hkept : ∀ s ∈ ss, (∀ name, Stretch.items.role s ≠ .block name) → P s)
    (hcall : ∀ s ∈ ss, ∀ name, Stretch.items.role s = .block name → P (Stretch.items.call s))
    (hdefinition : ∀ name, P (Stretch.items.definition name)) :
    (ss.foldl (Hoisting.step Stretch.items) h).All P := by
  induction ss generalizing h with
  | nil => exact hh
  | cons s more ih =>
    obtain ⟨hs, hkept⟩ := List.forall_mem_cons.1 hkept
    obtain ⟨hs', hcall⟩ := List.forall_mem_cons.1 hcall
    exact ih (hh.step hs hs' hdefinition) hkept hcall

/-- Of one kind is all that is put together, if so are the stretches that stay, the calls for blocks
and the headers of definitions. -/
theorem forall_mem_hoist {ss : List Stretch}
    (hkept : ∀ s ∈ ss, (∀ name, Stretch.items.role s ≠ .block name) → P s)
    (hcall : ∀ s ∈ ss, ∀ name, Stretch.items.role s = .block name → P (Stretch.items.call s))
    (hdefinition : ∀ name, P (Stretch.items.definition name)) : ∀ s ∈ hoist ss, P s := by
  have hall := all_initial.foldl hkept hcall hdefinition
  exact List.forall_mem_append.2 ⟨hall.hoisted, hall.content⟩

end Hoisting

/-- No block is left. -/
theorem role_of_mem_hoist {ss : List Stretch} :
    ∀ s ∈ hoist ss, ∀ name, Role.ofTokens s.action.tokens ≠ .block name := by
  refine Hoisting.forall_mem_hoist (fun s _ h => h) (fun s _ name hrole name' h => ?_) ?_
  · obtain ⟨rest, hblock⟩ := Role.ofTokens_eq_block hrole
    have hcall : Role.ofTokens (callTokens s.action.tokens) = .block name' := h
    rw [hblock] at hcall
    cases hcall
  · intro name name' h
    cases h

namespace MadeOf

variable {source : String} {ss : List Stretch} {last : List Char}

/-- Without its blocks, a source is made of what has been put together. -/
theorem hoist (h : MadeOf source ss last) :
    MadeOf (String.ofList (charsOf (hoist ss) last)) (hoist ss) last := by
  refine ⟨Hoisting.forall_mem_hoist (fun s hs _ => h.plain s hs) (fun s hs name hrole => ?_) ?_,
    h.ends, rfl⟩
  · obtain ⟨rest, hblock⟩ := Role.ofTokens_eq_block hrole
    exact ⟨(h.plain s hs).text, (h.plain s hs).action.call hblock⟩
  · exact fun name => ⟨noOpening_nil, ActionText.plain_definition name⟩

end MadeOf

/-- The names in the headers of the definitions and blocks of a source. -/
def definedNames (source : String) : List String :=
  match ofSource source with
  | .ok segments =>
    segments.others.filterMap fun p => definedName? (p.1.tokens.map PlacedToken.token)
  | .error _ => []

theorem MadeOf.definedNames_eq {source : String} {ss : List Stretch} {last : List Char}
    (h : MadeOf source ss last) :
    definedNames source = ss.filterMap fun s => definedName? s.action.tokens := by
  obtain ⟨segments, hsegments, -, htokens⟩ := h.exists_segments
  rw [definedNames, hsegments]
  have hnames := congrArg (List.filterMap definedName?) htokens
  rwa [List.filterMap_map, List.filterMap_map] at hnames

theorem Stretch.filterMap_textUnits (t : List Char) :
    (textUnits t).filterMap (fun g => definedName? (g.map PlacedToken.token)) = [] := by
  unfold textUnits
  split <;> rfl

theorem Stretch.filterMap_flatMap_units (ss : List Stretch) (last : List Char) :
    (ss.flatMap units ++ textUnits last).filterMap (fun g => definedName? (g.map PlacedToken.token))
      = ss.filterMap fun s => definedName? s.action.tokens := by
  rw [List.filterMap_append, filterMap_textUnits, List.append_nil]
  induction ss with
  | nil => rfl
  | cons s more ih =>
    have haction : (actionUnits s.action.tokens).filterMap
        (fun g => definedName? (g.map PlacedToken.token)) = (definedName? s.action.tokens).toList := by
      unfold actionUnits
      split
      · rename_i hnil
        rw [hnil]
        rfl
      · rw [List.filterMap_cons, map_token_unplacedTokens]
        cases definedName? s.action.tokens <;> rfl
    rw [List.flatMap_cons, List.filterMap_append, ih, units, List.filterMap_append,
      filterMap_textUnits, haction, List.filterMap_cons]
    cases definedName? s.action.tokens <;> rfl

namespace Grammar

/-- What the grammar derives from a source, it derives without the blocks as well: the same nodes, and
the same definitions in another order. -/
theorem isNodes_hoist {defined : String → Bool} {ss : List Stretch} {last : List Char}
    {nodes : List Node} {ds : List Tree} (hss : ∀ s ∈ ss, s.Plain)
    (h : IsNodes defined true (unplacedTokens (tokensOfAll ss last)) nodes ds) :
    ∃ ds', ds'.Perm ds ∧ (ss.filterMap fun s => definedName? s.action.tokens).Perm (ds.map Tree.name)
      ∧ IsNodes defined true (unplacedTokens (tokensOfAll (hoist ss) last)) nodes ds' := by
  obtain ⟨gs, hoisted, main, es, fs, htokens, hmoves, hperm, -, hmain⟩ := hoists_nodes h
  have hunits : ∀ g ∈ ss.flatMap Stretch.units ++ textUnits last, IsUnit g := by
    refine List.forall_mem_append.2 ⟨fun g hg => ?_, fun g => isUnit_of_mem_textUnits⟩
    obtain ⟨s, hs, hg⟩ := List.mem_flatMap.1 hg
    exact isUnit_of_mem_units (hss s hs) hg
  obtain rfl : gs = ss.flatMap Stretch.units ++ textUnits last :=
    eq_of_flatten_eq hmoves.units hunits (htokens.symm.trans (flatten_flatMap_units ss last).symm)
  have hrun := hmoves.moves .initial
  rw [List.foldl_append, show Hoisting.initial = (Hoisting.initial : Hoisting Stretch).units from rfl,
    Hoisting.foldl_flatMap_units, Hoisting.foldl_textUnits] at hrun
  obtain ⟨hhoisted, hcontent, -⟩ := Hoisting.mk.inj hrun
  have hflatten : hoisted.flatten ++ main.flatten
      = unplacedTokens (tokensOfAll (hoist ss) last) := by
    rw [← List.flatten_append, ← flatten_flatMap_units, hoist, List.flatMap_append,
      List.append_assoc]
    exact congrArg List.flatten (congrArg₂ (· ++ ·) hhoisted hcontent).symm
  refine ⟨es ++ fs, hperm, ?_, ?_⟩
  · rw [← filterMap_flatMap_units ss last]
    exact hmoves.names
  · have hall := isNodes_append hmain hmoves.nodes
    rwa [hflatten] at hall

/-- Definitions of which no two have the same name are collected as they are. -/
theorem collected_of_nodup {ds : List Tree} (h : (ds.map Tree.name).Nodup) : collected ds = ds := by
  induction ds using List.reverseRecOn with
  | nil => rfl
  | append_singleton ds t ih =>
    rw [List.map_append, List.nodup_append] at h
    obtain ⟨hds, -, hnew⟩ := h
    rw [collected_append_of_new fun hmem => hnew _ hmem _ List.mem_cons_self rfl, ih hds]

theorem compatible_of_nodup {ds : List Tree} (h : (ds.map Tree.name).Nodup) : Compatible ds :=
  (List.pairwise_map.1 h).imp fun hne heq => absurd heq hne

end Grammar

/-! ## Groups -/

namespace Group

theorem settle_unplaced (old : Option Tree) (t : Tree) :
    (settle old t).map Tree.unplaced = settle (old.map Tree.unplaced) t.unplaced := by
  have hreplaces : replaces t.unplaced (old.map Tree.unplaced) = replaces t old := by
    cases old with
    | none => rfl
    | some o =>
      show (!t.unplaced.isEmpty || o.unplaced.isEmpty) = _
      rw [Tree.isEmpty_unplaced, Tree.isEmpty_unplaced]
      rfl
  unfold settle
  rw [hreplaces]
  split <;> rfl

theorem foldl_settle_unplaced (ts : List Tree) (old : Option Tree) :
    (ts.foldl settle old).map Tree.unplaced
      = (ts.map Tree.unplaced).foldl settle (old.map Tree.unplaced) := by
  induction ts generalizing old with
  | nil => rfl
  | cons t rest ih => rw [List.foldl_cons, ih, settle_unplaced, List.map_cons, List.foldl_cons]

/-- What a name finds once a source is added depends on the source up to positions. -/
theorem tree?_addSource_unplaced (g : Group) (s : ParsedSource) (name : String) :
    ((g.addSource s).tree? name).map Tree.unplaced
      = ((s.unplaced.main :: s.unplaced.defines).filter fun t => t.name = name).foldl settle
          ((g.tree? name).map Tree.unplaced) := by
  have hfilter : ((s.main :: s.defines).filter fun t => t.name = name).map Tree.unplaced
      = (s.unplaced.main :: s.unplaced.defines).filter fun t => t.name = name := by
    show _ = ((s.main :: s.defines).map Tree.unplaced).filter _
    rw [List.filter_map]
    rfl
  rw [addSource, tree?_foldl_add, foldl_settle_unplaced, hfilter]

theorem filter_name_eq_of_perm {ts us : List Tree} (h : ts.Perm us)
    (hts : (ts.map Tree.name).Nodup) (name : String) :
    ts.filter (fun t => t.name = name) = us.filter fun t => t.name = name := by
  have hfilter := h.filter fun t => t.name = name
  rw [filter_name_of_nodup hts] at hfilter ⊢
  cases hfound : ts.find? fun t => t.name = name with
  | none =>
    rw [hfound] at hfilter
    exact hfilter.nil_eq
  | some t =>
    rw [hfound] at hfilter
    exact hfilter.singleton_eq

/-- Sources with the same main content and the same definitions, each name once, add the same to a
group, up to positions and in whatever order. -/
theorem addSource_sameUpToPlaces (g : Group) {s s' : ParsedSource}
    (hmain : s.main.unplaced = s'.main.unplaced)
    (hdefines : (s.defines.map Tree.unplaced).Perm (s'.defines.map Tree.unplaced))
    (hnames : ((s.defines.map Tree.unplaced).map Tree.name).Nodup) :
    (g.addSource s).SameUpToPlaces (g.addSource s') := by
  obtain ⟨templates, hs⟩ := exists_templates_foldl_add g (s.main :: s.defines)
  obtain ⟨templates', hs'⟩ := exists_templates_foldl_add g (s'.main :: s'.defines)
  refine ⟨?_, ?_, fun name => ?_⟩
  · rw [addSource, addSource, hs, hs']
  · rw [functions_addSource, functions_addSource]
  · rw [tree?_addSource_unplaced, tree?_addSource_unplaced, ParsedSource.unplaced,
      ParsedSource.unplaced, hmain, List.filter_cons, List.filter_cons,
      filter_name_eq_of_perm hdefines hnames]

end Group

/-! ## Sources -/

namespace Parser

/-- **A block is a definition and a call.** A source that is parsed and has no trim markers is made of
stretches. If no two of its definitions and blocks have the same name, the stretches with all blocks
taken out are parsed to the same main content and to the same definitions, up to positions. So a group
that has parsed either puts out the same for every template and value, or fails in the same way, up to
places in messages. -/
theorem parse_hoist {functions : FuncTable} {name source : String} {parsed : ParsedSource}
    (hparse : parse functions.defines name source = .ok parsed) (hplain : Untrimmed source)
    (hnames : (definedNames source).Nodup) :
    (∃ ss last, MadeOf source ss last) ∧ ∀ ss last, MadeOf source ss last →
      (∀ s ∈ hoist ss, ∀ name, Role.ofTokens s.action.tokens ≠ .block name) ∧ ∃ parsed',
      parse functions.defines name (String.ofList (charsOf (hoist ss) last)) = .ok parsed'
      ∧ parsed'.main.unplaced = parsed.main.unplaced
      ∧ (parsed'.defines.map Tree.unplaced).Perm (parsed.defines.map Tree.unplaced)
      ∧ ∀ g : Group, g.functions = functions → ∃ more more',
        g.parse name source = .ok more
        ∧ g.parse name (String.ofList (charsOf (hoist ss) last)) = .ok more'
        ∧ ∀ template v, unplacedResult (more'.executeTemplate template v)
          = unplacedResult (more.executeTemplate template v) := by
  obtain ⟨ts, hts, -⟩ := parse_eq_ok_iff_tokens.1 hparse
  refine ⟨exists_madeOf hts hplain, fun ss last hmade => ?_⟩
  obtain ⟨ds, hnodes, -, hds⟩ := hmade.exists_isNodes hparse
  obtain ⟨ds', hperm, hheaders, hnodes'⟩ := isNodes_hoist hmade.plain hnodes
  rw [hmade.definedNames_eq] at hnames
  have hnodup : (ds.map Tree.name).Nodup := hheaders.nodup hnames
  have hnodup' : (ds'.map Tree.name).Nodup := (hperm.map Tree.name).symm.nodup hnodup
  obtain ⟨parsed', hparse', hunplaced⟩ : ∃ parsed',
      parse functions.defines name (String.ofList (charsOf (Stencil.hoist ss) last)) = .ok parsed'
      ∧ parsed'.unplaced = ⟨⟨name, parsed.main.root.map Node.unplaced⟩, collected ds'⟩ :=
    hmade.hoist.exists_parse_of_isNodes hnodes' (compatible_of_nodup hnodup')
  obtain ⟨hmain, hdefines⟩ := ParsedSource.mk.inj hunplaced
  rw [collected_of_nodup hnodup'] at hdefines
  rw [collected_of_nodup hnodup] at hds
  have hsame : parsed'.main.unplaced = parsed.main.unplaced := by
    rw [hmain, ← main_name_of_parse hparse, ← Tree.unplaced_mk]
  have hall : (parsed'.defines.map Tree.unplaced).Perm (parsed.defines.map Tree.unplaced) := by
    rw [hdefines, hds]
    exact hperm
  refine ⟨role_of_mem_hoist, parsed', hparse', hsame, hall, fun g hg => ?_⟩
  refine ⟨g.addSource parsed, g.addSource parsed', ?_, ?_, fun template v => ?_⟩
  · rw [Group.parse, hg, hparse]
  · rw [Group.parse, hg, hparse']
  · have hnames' : ((parsed'.defines.map Tree.unplaced).map Tree.name).Nodup := by rwa [hdefines]
    exact (g.addSource_sameUpToPlaces hsame hall hnames').executeTemplate template v

/-- The block stands in another construct, and its call is left there. -/
theorem parse_hoist_nested :
    ∃ more more', (Group.named "site").parse "page"
        "\x7b\x7bif .\x7d\x7da\x7b\x7bblock \"n\" .\x7d\x7dx\x7b\x7bend\x7d\x7d\x7b\x7bend\x7d\x7db" = .ok more
      ∧ (Group.named "site").parse "page" ("\x7b\x7bdefine \"n\"\x7d\x7dx\x7b\x7bend\x7d\x7d"
        ++ "\x7b\x7bif .\x7d\x7da\x7b\x7btemplate \"n\" .\x7d\x7d\x7b\x7bend\x7d\x7db") = .ok more'
      ∧ ∀ template v, unplacedResult (more'.executeTemplate template v)
        = unplacedResult (more.executeTemplate template v) := by
  have hparse : parse (FuncTable.defines .empty) "page"
      "\x7b\x7bif .\x7d\x7da\x7b\x7bblock \"n\" .\x7d\x7dx\x7b\x7bend\x7d\x7d\x7b\x7bend\x7d\x7db"
        = .ok ⟨⟨"page", [.conditional ⟨1, 1⟩ [⟨⟨⟨1, 6⟩, [⟨⟨1, 6⟩, [.dot]⟩]⟩, [.text "a",
            .call ⟨1, 10⟩ "n" (some ⟨⟨1, 22⟩, [⟨⟨1, 22⟩, [.dot]⟩]⟩)]⟩] none, .text "b"]⟩,
          [⟨"n", [.text "x"]⟩]⟩ := by
    with_unfolding_all rfl
  have hif : ActionText.Plain ⟨"\x7b\x7bif .\x7d\x7d".toList,
      [.actionStart, .keyword .ifWord, .dot, .actionEnd]⟩ :=
    ⟨⟨⟨false, [⟨.actionStart, ⟨1, 1⟩⟩, ⟨.keyword .ifWord, ⟨1, 3⟩⟩, ⟨.dot, ⟨1, 6⟩⟩,
      ⟨.actionEnd, ⟨1, 7⟩⟩], false⟩, ⟨1, 9⟩, by with_unfolding_all rfl, rfl⟩, rfl, rfl⟩
  have hblock : ActionText.Plain ⟨"\x7b\x7bblock \"n\" .\x7d\x7d".toList,
      [.actionStart, .keyword .blockWord, .string "n", .dot, .actionEnd]⟩ :=
    ⟨⟨⟨false, [⟨.actionStart, ⟨1, 1⟩⟩, ⟨.keyword .blockWord, ⟨1, 3⟩⟩, ⟨.string "n", ⟨1, 9⟩⟩,
      ⟨.dot, ⟨1, 13⟩⟩, ⟨.actionEnd, ⟨1, 14⟩⟩], false⟩, ⟨1, 16⟩, by with_unfolding_all rfl, rfl⟩,
      rfl, rfl⟩
  have hend : ActionText.Plain ⟨"\x7b\x7bend\x7d\x7d".toList,
      [.actionStart, .keyword .endWord, .actionEnd]⟩ :=
    ⟨⟨⟨false, [⟨.actionStart, ⟨1, 1⟩⟩, ⟨.keyword .endWord, ⟨1, 3⟩⟩, ⟨.actionEnd, ⟨1, 6⟩⟩], false⟩,
      ⟨1, 8⟩, by with_unfolding_all rfl, rfl⟩, rfl, rfl⟩
  have hmade : MadeOf "\x7b\x7bif .\x7d\x7da\x7b\x7bblock \"n\" .\x7d\x7dx\x7b\x7bend\x7d\x7d\x7b\x7bend\x7d\x7db"
      [⟨[], _⟩, ⟨['a'], _⟩, ⟨['x'], _⟩, ⟨[], _⟩] ['b'] :=
    ⟨List.forall_mem_cons.2 ⟨⟨noOpening_nil, hif⟩, List.forall_mem_cons.2 ⟨⟨⟨rfl, by decide⟩, hblock⟩,
      List.forall_mem_cons.2 ⟨⟨⟨rfl, by decide⟩, hend⟩,
        List.forall_mem_singleton.2 ⟨noOpening_nil, hend⟩⟩⟩⟩, by decide, by decide +kernel⟩
  obtain ⟨-, hhoist⟩ := parse_hoist hparse (by decide +kernel) (by decide +kernel)
  obtain ⟨-, _, -, -, -, hgroup⟩ := hhoist _ _ hmade
  exact hgroup (Group.named "site") rfl

end Parser

end Stencil
