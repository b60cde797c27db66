/-
Blocks taken out of their places.

A block is taken out by putting a call in its place and a definition of what it stands for in front of
everything else. Going through a source, the actions that begin and end constructs say where blocks
end, so this needs no parser. What the grammar makes of the result follows the derivation of what was
there before: each list of nodes leaves the same nodes behind, and its blocks are definitions of the
outermost list. Explicit definitions stay where they are.
-/
import Stencil.Proofs.Concatenation
import Stencil.Proofs.HeaderTexts

set_option autoImplicit false

namespace Stencil

/-! ## Going through a source -/

/-- What an action is to the constructs around it. -/
inductive Role where
  | opens
  | block (name : String)
  | ends
  | other

/-- The role of an action with given tokens. Whatever is no action has none. -/
def Role.ofTokens : List Token → Role
  | .actionStart :: .keyword .ifWord :: _ => .opens
  | .actionStart :: .keyword .rangeWord :: _ => .opens
  | .actionStart :: .keyword .withWord :: _ => .opens
  | .actionStart :: .keyword .defineWord :: _ => .opens
  | .actionStart :: .keyword .blockWord :: .string name :: _ => .block name
  | .actionStart :: .keyword .endWord :: _ => .ends
  | _ => .other

/-- The name in the header of a definition or block. -/
def definedName? : List Token → Option String
  | .actionStart :: .keyword .defineWord :: .string name :: _ => some name
  | .actionStart :: .keyword .blockWord :: .string name :: _ => some name
  | _ => none

/-- The items that a source is gone through by: their roles, and what takes the place of a block. -/
structure Items (α : Type) where
  role : α → Role
  call : α → α
  definition : String → α

/-- A construct that is open: a block is being taken out, with what stands before it up to its call, and
any other construct stays where it is. -/
inductive Enclosing (α : Type) where
  | kept
  | block (outer : List α) (name : String)

/-- How far the blocks have been taken out: the definitions that are complete, the items of what is
being read, and the constructs that are open. -/
structure Hoisting (α : Type) where
  hoisted : List α
  content : List α
  enclosing : List (Enclosing α)

namespace Hoisting

variable {α : Type}

/-- Before the first item. -/
def initial : Hoisting α := ⟨[], [], []⟩

/-- Goes on with one item. -/
def step (i : Items α) (h : Hoisting α) (a : α) : Hoisting α :=
  match i.role a with
  | .opens => ⟨h.hoisted, h.content ++ [a], .kept :: h.enclosing⟩
  | .block name => ⟨h.hoisted, [], .block (h.content ++ [i.call a]) name :: h.enclosing⟩
  | .ends =>
    match h.enclosing with
    | .block outer name :: rest =>
      ⟨h.hoisted ++ i.definition name :: (h.content ++ [a]), outer, rest⟩
    | enclosing => ⟨h.hoisted, h.content ++ [a], enclosing.tail⟩
  | .other => ⟨h.hoisted, h.content ++ [a], h.enclosing⟩

variable {i : Items α} {a : α} {name : String} {hoisted content outer : List α}
  {enclosing : List (Enclosing α)}

theorem step_opens (ha : i.role a = .opens) :
    step i ⟨hoisted, content, enclosing⟩ a = ⟨hoisted, content ++ [a], .kept :: enclosing⟩ := by
  rw [step, ha]

theorem step_block (ha : i.role a = .block name) :
    step i ⟨hoisted, content, enclosing⟩ a
      = ⟨hoisted, [], .block (content ++ [i.call a]) name :: enclosing⟩ := by
  rw [step, ha]

theorem step_ends_nil (ha : i.role a = .ends) :
    step i ⟨hoisted, content, []⟩ a = ⟨hoisted, content ++ [a], []⟩ := by
  rw [step, ha]
  rfl

theorem step_ends_kept (ha : i.role a = .ends) :
    step i ⟨hoisted, content, .kept :: enclosing⟩ a = ⟨hoisted, content ++ [a], enclosing⟩ := by
  rw [step, ha]
  rfl

theorem step_ends_block (ha : i.role a = .ends) :
    step i ⟨hoisted, content, .block outer name :: enclosing⟩ a
      = ⟨hoisted ++ i.definition name :: (content ++ [a]), outer, enclosing⟩ := by
  rw [step, ha]

theorem step_other (ha : i.role a = .other) :
    step i ⟨hoisted, content, enclosing⟩ a = ⟨hoisted, content ++ [a], enclosing⟩ := by
  rw [step, ha]

end Hoisting

/-- The stretches of a source as items. -/
def Stretch.items : Items Stretch where
  role s := .ofTokens s.action.tokens
  call s := ⟨s.text, s.action.call⟩
  definition name := ⟨[], .definition name⟩

/-- **Takes all blocks out of a source**: in place of each there is a call, and definitions of them
stand in front, in the order in which the blocks end. -/
def hoist (ss : List Stretch) : List Stretch :=
  let h := ss.foldl (Hoisting.step Stretch.items) .initial
  h.hoisted ++ h.content

/-! ## Units -/

namespace Grammar

variable {defined : String → Bool}

theorem isInside_of_isValue {t : Token} {o : Operand} (h : IsValue t o) : t.isInside = true := by
  cases h <;> rfl

mutual

theorem isInside_of_isOperand : ∀ {ts : List PlacedToken} {o : Operand}, IsOperand defined ts o →
    ∀ t ∈ ts, t.token.isInside = true
  | _, _, .value h => fun t ht => by
    rw [List.mem_singleton.1 ht]
    exact isInside_of_isValue h
  | _, _, .function _ => fun t ht => by
    rw [List.mem_singleton.1 ht]
    rfl
  | _, _, .parentheses h => fun t ht => by
    rcases List.mem_cons.1 ht with rfl | ht
    · rfl
    · rcases List.mem_append.1 ht with ht | ht
      · exact isInside_of_isPipeline h t ht
      · rw [List.mem_singleton.1 ht]
        rfl

theorem isInside_of_isOperands : ∀ {ts : List PlacedToken} {os : List Operand},
    IsOperands defined ts os → ∀ t ∈ ts, t.token.isInside = true
  | _, _, .nil => fun t ht => absurd ht List.not_mem_nil
  | _, _, .snoc hos ho => fun t ht => by
    rcases List.mem_append.1 ht with ht | ht
    · exact isInside_of_isOperands hos t ht
    · exact isInside_of_isOperand ho t ht

theorem isInside_of_isCommands : ∀ {ts : List PlacedToken} {cs : List Command},
    IsCommands defined ts cs → ∀ t ∈ ts, t.token.isInside = true
  | _, _, .one (.operands h) => isInside_of_isOperands h
  | _, _, .piped hcs (.operands h) => fun t ht => by
    rcases List.mem_append.1 ht with ht | ht
    · exact isInside_of_isCommands hcs t ht
    · rcases List.mem_cons.1 ht with rfl | ht
      · rfl
      · exact isInside_of_isOperands h t ht

/-- No delimiter stands in a pipeline. -/
theorem isInside_of_isPipeline : ∀ {ts : List PlacedToken} {p : Pipeline}, IsPipeline defined ts p →
    ∀ t ∈ ts, t.token.isInside = true
  | _, _, .commands h => isInside_of_isCommands h

end

theorem isInside_of_named {k : Keyword} {name : String} {place place' : Position}
    {ts : List PlacedToken} {p : Option Pipeline} (h : IsArgument defined ts p) :
    ∀ t ∈ (⟨.keyword k, place⟩ :: ⟨.string name, place'⟩ :: ts : List PlacedToken),
      t.token.isInside = true := by
  have hts : ∀ t ∈ ts, t.token.isInside = true := by
    cases h with
    | missing => exact fun t ht => absurd ht List.not_mem_nil
    | given hp => exact isInside_of_isPipeline hp
  exact List.forall_mem_cons.2 ⟨rfl, List.forall_mem_cons.2 ⟨rfl, hts⟩⟩

/-- Says that tokens are a text or an action, delimiters included. -/
def IsUnit (g : List PlacedToken) : Prop :=
  (∃ s pos, g = [⟨.text s, pos⟩]) ∨
    ∃ start within close, g = action start within close ∧ ∀ t ∈ within, t.token.isInside = true

theorem isUnit_text (s : String) (pos : Position) : IsUnit [⟨.text s, pos⟩] := .inl ⟨s, pos, rfl⟩

theorem isUnit_action (start close : Position) {within : List PlacedToken}
    (h : ∀ t ∈ within, t.token.isInside = true) : IsUnit (action start within close) :=
  .inr ⟨start, within, close, rfl, h⟩

/-- Behind tokens of which none is a delimiter there is one closing delimiter that comes first. -/
theorem append_close_inj {ws ws' r r' : List PlacedToken} {close close' : Position}
    (hws : ∀ t ∈ ws, t.token.isInside = true) (hws' : ∀ t ∈ ws', t.token.isInside = true)
    (h : ws ++ ⟨.actionEnd, close⟩ :: r = ws' ++ ⟨.actionEnd, close'⟩ :: r') :
    ws = ws' ∧ close = close' ∧ r = r' := by
  induction ws generalizing ws' with
  | nil =>
    cases ws' with
    | nil =>
      obtain ⟨hclose, hr⟩ := List.cons.inj h
      exact ⟨rfl, (PlacedToken.mk.inj hclose).2, hr⟩
    | cons t ws' =>
      have ht := hws' t List.mem_cons_self
      rw [← (List.cons.inj h).1] at ht
      cases ht
  | cons t ws ih =>
    obtain ⟨ht, hws⟩ := List.forall_mem_cons.1 hws
    cases ws' with
    | nil =>
      rw [(List.cons.inj h).1] at ht
      cases ht
    | cons t' ws' =>
      obtain ⟨rfl, hrest⟩ := List.cons.inj h
      obtain ⟨rfl, hmore⟩ := ih hws (List.forall_mem_cons.1 hws').2 hrest
      exact ⟨rfl, hmore⟩

/-- Tokens fall apart into texts and actions in one way only. -/
theorem eq_of_flatten_eq {gs gs' : List (List PlacedToken)} (hgs : ∀ g ∈ gs, IsUnit g)
    (hgs' : ∀ g ∈ gs', IsUnit g) (h : gs.flatten = gs'.flatten) : gs = gs' := by
  have hne : ∀ {g : List PlacedToken}, IsUnit g → g ≠ [] := by
    rintro g (⟨s, pos, rfl⟩ | ⟨start, within, close, rfl, -⟩)
    · exact List.cons_ne_nil _ _
    · exact List.cons_ne_nil _ _
  induction gs generalizing gs' with
  | nil =>
    cases gs' with
    | nil => rfl
    | cons g' gs' =>
      exact absurd (List.append_eq_nil_iff.1 h.symm).1 (hne (hgs' g' List.mem_cons_self))
  | cons g gs ih =>
    cases gs' with
    | nil => exact absurd (List.append_eq_nil_iff.1 h).1 (hne (hgs g List.mem_cons_self))
    | cons g' gs' =>
      obtain ⟨hg, hgs⟩ := List.forall_mem_cons.1 hgs
      obtain ⟨hg', hgs'⟩ := List.forall_mem_cons.1 hgs'
      rw [List.flatten_cons, List.flatten_cons] at h
      have hsame : g = g' ∧ gs.flatten = gs'.flatten := by
        rcases hg with ⟨s, pos, rfl⟩ | ⟨start, within, close, rfl, hwithin⟩
        · rcases hg' with ⟨s', pos', rfl⟩ | ⟨start', within', close', rfl, -⟩
          · obtain ⟨hfirst, hrest⟩ := List.cons.inj h
            exact ⟨by rw [hfirst], hrest⟩
          · cases (List.cons.inj h).1
        · rcases hg' with ⟨s', pos', rfl⟩ | ⟨start', within', close', rfl, hwithin'⟩
          · cases (List.cons.inj h).1
          · rw [action, action, List.append_assoc, List.append_assoc] at h
            obtain ⟨hstart, hrest⟩ := List.cons.inj h
            obtain ⟨rfl, rfl, hmore⟩ := append_close_inj hwithin hwithin' hrest
            exact ⟨by rw [action, action, hstart], hmore⟩
      rw [hsame.1, ih hgs hgs' hsame.2]

/-! ## Going through the tokens of the grammar -/

/-- The call with the tokens of a block's header. -/
def callOf : List PlacedToken → List PlacedToken
  | start :: ⟨.keyword _, place⟩ :: rest => start :: ⟨.keyword .templateWord, place⟩ :: rest
  | g => g

/-- Texts and actions as items. -/
def items : Items (List PlacedToken) where
  role g := .ofTokens (g.map PlacedToken.token)
  call := callOf
  definition name := unplacedTokens (ActionText.definition name).tokens

/-- What going through tokens makes of them: `main` takes their place, with the definitions `hoisted` in
front of everything else. The tokens define `ds`, and the definitions in front define `ds'`. -/
structure Hoists (defined : String → Bool) (opened : List (Enclosing (List PlacedToken)))
    (gs hoisted main : List (List PlacedToken)) (ds ds' : List Tree) : Prop where
  units : ∀ g ∈ gs, IsUnit g
  moves : ∀ h : Hoisting (List PlacedToken), gs.foldl (Hoisting.step items) h
    = ⟨h.hoisted ++ hoisted, h.content ++ main, opened ++ h.enclosing⟩
  names : (gs.filterMap fun g => definedName? (g.map PlacedToken.token)).Perm (ds.map Tree.name)
  nodes : IsNodes defined true hoisted.flatten [] ds'

namespace Hoists

variable {opened opened' : List (Enclosing (List PlacedToken))}
  {gs gs' hoisted hoisted' main main' : List (List PlacedToken)} {g e : List PlacedToken}
  {ds ds' es es' : List Tree}

theorem nil : Hoists defined [] [] [] [] [] [] :=
  ⟨by simp, fun h => by simp, List.Perm.nil, .nil⟩

theorem append (h : Hoists defined opened gs hoisted main ds es)
    (h' : Hoists defined opened' gs' hoisted' main' ds' es') :
    Hoists defined (opened' ++ opened) (gs ++ gs') (hoisted ++ hoisted') (main ++ main') (ds ++ ds')
      (es ++ es') := by
  refine ⟨fun g hg => ?_, fun st => ?_, ?_, ?_⟩
  · exact (List.mem_append.1 hg).elim (h.units g) (h'.units g)
  · rw [List.foldl_append, h.moves, h'.moves]
    simp only [List.append_assoc]
  · rw [List.filterMap_append, List.map_append]
    exact h.names.append h'.names
  · rw [List.flatten_append]
    exact isNodes_append h'.nodes h.nodes

/-- A text or an action that is nothing to the constructs around it. -/
theorem one (hg : IsUnit g) (hrole : items.role g = .other)
    (hname : definedName? (g.map PlacedToken.token) = none) :
    Hoists defined [] [g] [] [g] [] [] := by
  refine ⟨by simpa using hg, fun st => ?_, by simp [hname], .nil⟩
  rw [List.foldl_cons, List.foldl_nil, Hoisting.step_other hrole, List.append_nil, List.nil_append]

/-- An action with which a construct begins that stays in its place. -/
theorem opens (hg : IsUnit g) (hrole : items.role g = .opens)
    (hname : (definedName? (g.map PlacedToken.token)).toList = ds.map Tree.name) :
    Hoists defined [.kept] [g] [] [g] ds [] := by
  refine ⟨by simpa using hg, fun st => ?_, ?_, .nil⟩
  · rw [List.foldl_cons, List.foldl_nil, Hoisting.step_opens hrole, List.append_nil]
    rfl
  · rw [← hname, List.filterMap_cons]
    cases definedName? (g.map PlacedToken.token) with
    | none => exact List.Perm.nil
    | some name => exact List.Perm.refl _

/-- The tokens that end a construct, as an item. -/
theorem endClause (he : IsClause .endWord e) :
    IsUnit e ∧ items.role e = .ends ∧ definedName? (e.map PlacedToken.token) = none := by
  obtain ⟨_⟩ := he
  exact ⟨isUnit_action _ _ (by simp [Token.isInside]), rfl, rfl⟩

/-- A construct that stays in its place ends. -/
theorem close (h : Hoists defined [.kept] gs hoisted main ds es) (he : IsClause .endWord e) :
    Hoists defined [] (gs ++ [e]) hoisted (main ++ [e]) ds es := by
  obtain ⟨hunit, hrole, hname⟩ := endClause he
  refine ⟨fun u hu => ?_, fun st => ?_, ?_, h.nodes⟩
  · rcases List.mem_append.1 hu with hu | hu
    · exact h.units u hu
    · rwa [List.mem_singleton.1 hu]
  · rw [List.foldl_append, h.moves, List.foldl_cons, List.foldl_nil, List.singleton_append,
      Hoisting.step_ends_kept hrole, List.append_assoc, List.nil_append]
  · rw [List.filterMap_append, List.filterMap_cons, hname, List.filterMap_nil, List.append_nil]
    exact h.names

/-- The header of a block, as an item. -/
theorem blockHeader {start : Position} {name : String} {p : Option Pipeline}
    (hg : IsNamedHeader defined .blockWord start name g p) :
    IsUnit g ∧ items.role g = .block name
      ∧ definedName? (g.map PlacedToken.token) = some name := by
  obtain ⟨hp⟩ := hg
  exact ⟨isUnit_action _ _ (isInside_of_named hp), rfl, rfl⟩

/-- A block is taken out: a call takes its place, and its definition comes last in front. -/
theorem block {start : Position} {name : String} {p : Option Pipeline} {body : List Node}
    (hg : IsNamedHeader defined .blockWord start name g p)
    (h : Hoists defined [] gs hoisted main ds es)
    (hbody : IsNodes defined false main.flatten body []) (he : IsClause .endWord e) :
    Hoists defined [] (g :: (gs ++ [e])) (hoisted ++ items.definition name :: (main ++ [e]))
      [callOf g] (ds ++ [⟨name, body⟩]) (es ++ [⟨name, body⟩]) := by
  obtain ⟨hunit, hrole, hname⟩ := blockHeader hg
  obtain ⟨hend, hendRole, hendName⟩ := endClause he
  refine ⟨fun u hu => ?_, fun st => ?_, ?_, ?_⟩
  · rcases List.mem_cons.1 hu with rfl | hu
    · exact hunit
    · rcases List.mem_append.1 hu with hu | hu
      · exact h.units u hu
      · rwa [List.mem_singleton.1 hu]
  · rw [List.foldl_cons, Hoisting.step_block hrole, List.foldl_append, h.moves, List.foldl_cons,
      List.foldl_nil, List.nil_append, List.nil_append, Hoisting.step_ends_block hendRole,
      List.append_assoc]
    rfl
  · rw [List.filterMap_cons, hname, List.filterMap_append, List.filterMap_cons, hendName,
      List.filterMap_nil, List.append_nil, List.map_append]
    exact (List.perm_append_singleton name _).symm.trans (h.names.append_right [name])
  · rw [List.flatten_append, List.flatten_cons, List.flatten_append, List.flatten_singleton,
      ← List.append_assoc (items.definition name)]
    exact .define h.nodes .mk hbody he

theorem of_perm (h : Hoists defined opened gs hoisted main ds es) (hds : ds.Perm ds') :
    Hoists defined opened gs hoisted main ds' es :=
  ⟨h.units, h.moves, h.names.trans (hds.map Tree.name), h.nodes⟩

/-- A header with a pipeline begins a construct that stays in its place. -/
theorem header {k : Keyword} {start : Position} {p : Pipeline} (hg : IsHeader defined k start g p)
    (hrole : ∀ ts, Role.ofTokens (.actionStart :: .keyword k :: ts) = .opens)
    (hname : ∀ ts, definedName? (.actionStart :: .keyword k :: ts) = none) :
    Hoists defined [.kept] [g] [] [g] [] [] := by
  obtain ⟨hp⟩ := hg
  exact opens (isUnit_action _ _ (List.forall_mem_cons.2 ⟨rfl, isInside_of_isPipeline hp⟩))
    (hrole _) (congrArg Option.toList (hname _))

/-- The header of an explicit definition begins a construct that stays in its place. -/
theorem defineHeader {name : String} (hg : IsDefineHeader name g) (body : List Node) :
    Hoists defined [.kept] [g] [] [g] [⟨name, body⟩] [] := by
  obtain ⟨_⟩ := hg
  exact opens (isUnit_action _ _ (by simp [Token.isInside])) rfl rfl

theorem elseIf {p : Pipeline} (hg : IsElseIf defined g p) :
    Hoists defined [] [g] [] [g] [] [] := by
  obtain ⟨hp⟩ := hg
  refine one (isUnit_action _ _ ?_) rfl rfl
  exact List.forall_mem_cons.2 ⟨rfl, List.forall_mem_cons.2 ⟨rfl, isInside_of_isPipeline hp⟩⟩

theorem elseClause (hg : IsClause .elseWord g) : Hoists defined [] [g] [] [g] [] [] := by
  obtain ⟨_⟩ := hg
  exact one (isUnit_action _ _ (by simp [Token.isInside])) rfl rfl

theorem call {start : Position} {name : String} {p : Option Pipeline}
    (hg : IsNamedHeader defined .templateWord start name g p) :
    Hoists defined [] [g] [] [g] [] [] := by
  obtain ⟨hp⟩ := hg
  exact one (isUnit_action _ _ (isInside_of_named hp)) rfl rfl

/-- A pipeline does not begin with a word, so its action has no role. -/
theorem output {start close : Position} {ts : List PlacedToken} {p : Pipeline}
    (hp : IsPipeline defined ts p) :
    Hoists defined [] [action start ts close] [] [action start ts close] [] [] := by
  have hunit := isUnit_action start close (isInside_of_isPipeline hp)
  obtain ⟨⟨token, pos⟩, us, rfl, hbegins⟩ := Parser.beginsPipeline_of_isPipeline hp
  cases token with
  | keyword k => cases hbegins
  | _ => exact one hunit rfl rfl

end Hoists

/-! ## What the grammar makes of it -/

theorem perm_append_between {es fs ds : List Tree} (h : (es ++ fs).Perm ds) (ds' : List Tree) :
    (es ++ ds' ++ fs).Perm (ds ++ ds') := by
  have hswap : (es ++ (ds' ++ fs)).Perm (es ++ (fs ++ ds')) := List.perm_append_comm.append_left es
  rw [← List.append_assoc, ← List.append_assoc] at hswap
  exact hswap.trans (h.append_right ds')

theorem isNamedHeader_callOf {start : Position} {name : String} {p : Option Pipeline}
    {g : List PlacedToken} (h : IsNamedHeader defined .blockWord start name g p) :
    IsNamedHeader defined .templateWord start name (callOf g) p := by
  obtain ⟨hp⟩ := h
  exact .mk hp

mutual

/-- A node leaves a node of the same kind, and its definitions go in front. -/
theorem hoists_node : ∀ {ts : List PlacedToken} {n : Node} {ds : List Tree}, IsNode defined ts n ds →
    ∃ gs hoisted main, ts = gs.flatten ∧ Hoists defined [] gs hoisted main ds ds
      ∧ IsNode defined main.flatten n []
  | _, _, _, .text =>
    ⟨_, _, _, List.flatten_singleton.symm, .one (isUnit_text _ _) rfl rfl, .text⟩
  | _, _, _, .output hp => by
    refine ⟨_, _, _, List.flatten_singleton.symm, .output hp, ?_⟩
    rw [List.flatten_singleton]
    exact .output hp
  | _, _, _, .conditional hbs hotherwise hend => by
    obtain ⟨gs, hoisted, main, rfl, hmoves, hbs'⟩ := hoists_branches hbs
    obtain ⟨gs', hoisted', main', rfl, hmoves', hotherwise'⟩ := hoists_alternative hotherwise
    refine ⟨gs ++ gs' ++ [_], _, _, ?_, (hmoves.append hmoves').close hend, ?_⟩
    · rw [List.flatten_append, List.flatten_append, List.flatten_singleton]
    · rw [List.flatten_append, List.flatten_append, List.flatten_singleton]
      exact .conditional hbs' hotherwise' hend
  | _, _, _, @IsNode.rebind _ kind _ _ _ _ _ _ _ _ _ _ hhead hbody hotherwise hend => by
    obtain ⟨gs, hoisted, main, es, fs, rfl, hmoves, -, hinner, hbody'⟩ := hoists_nodes hbody
    obtain ⟨rfl, rfl⟩ := hinner rfl
    obtain ⟨gs', hoisted', main', rfl, hmoves', hotherwise'⟩ := hoists_alternative hotherwise
    have hopen : Hoists defined [.kept] _ [] _ [] [] :=
      .header hhead (by cases kind <;> exact fun _ => rfl) (by cases kind <;> exact fun _ => rfl)
    refine ⟨[_] ++ gs ++ gs' ++ [_], _, _, ?_, ((hopen.append hmoves).append hmoves').close hend, ?_⟩
    · rw [List.flatten_append, List.flatten_append, List.flatten_append, List.flatten_singleton,
        List.flatten_singleton]
    · rw [List.flatten_append, List.flatten_append, List.flatten_append, List.flatten_singleton,
        List.flatten_singleton]
      exact .rebind hhead hbody' hotherwise' hend
  | _, _, _, .call hhead => by
    refine ⟨_, _, _, List.flatten_singleton.symm, .call hhead, ?_⟩
    rw [List.flatten_singleton]
    exact .call hhead
  | _, _, _, .block hhead hbody hend => by
    obtain ⟨gs, hoisted, main, es, fs, rfl, hmoves, -, hinner, hbody'⟩ := hoists_nodes hbody
    obtain ⟨rfl, rfl⟩ := hinner rfl
    refine ⟨_ :: (gs ++ [_]), _, _, ?_, .block hhead hmoves hbody' hend, ?_⟩
    · rw [List.flatten_cons, List.flatten_append, List.flatten_singleton, List.append_assoc]
    · rw [List.flatten_singleton]
      exact .call (isNamedHeader_callOf hhead)

/-- A list of nodes leaves the same nodes. Its blocks go in front, and the definitions of the outermost
list stay. -/
theorem hoists_nodes : ∀ {outermost : Bool} {ts : List PlacedToken} {ns : List Node}
    {ds : List Tree}, IsNodes defined outermost ts ns ds →
    ∃ gs hoisted main es fs, ts = gs.flatten ∧ Hoists defined [] gs hoisted main ds es
      ∧ (es ++ fs).Perm ds ∧ (outermost = false → es = ds ∧ fs = [])
      ∧ IsNodes defined outermost main.flatten ns fs
  | _, _, _, _, .nil =>
    ⟨[], [], [], [], [], rfl, .nil, List.Perm.nil, fun _ => ⟨rfl, rfl⟩, .nil⟩
  | _, _, _, _, .node hns hn => by
    obtain ⟨gs, hoisted, main, es, fs, rfl, hmoves, hperm, hinner, hns'⟩ := hoists_nodes hns
    obtain ⟨gs', hoisted', main', rfl, hmoves', hn'⟩ := hoists_node hn
    have hall := hns'.node hn'
    rw [List.append_nil] at hall
    refine ⟨gs ++ gs', _, main ++ main', _, fs, ?_, hmoves.append hmoves', ?_, fun h => ?_, ?_⟩
    · rw [List.flatten_append]
    · exact perm_append_between hperm _
    · obtain ⟨rfl, rfl⟩ := hinner h
      exact ⟨rfl, rfl⟩
    · rwa [List.flatten_append]
  | _, _, _, _, @IsNodes.define _ _ _ _ _ _ body name _ _ hns hhead hbody hend => by
    obtain ⟨gs, hoisted, main, es, fs, rfl, hmoves, hperm, -, hns'⟩ := hoists_nodes hns
    obtain ⟨gs', hoisted', main', es', fs', rfl, hmoves', -, hinner, hbody'⟩ := hoists_nodes hbody
    obtain ⟨rfl, rfl⟩ := hinner rfl
    have hinside := ((Hoists.defineHeader hhead body).append hmoves').close hend
    refine ⟨gs ++ ([_] ++ gs' ++ [_]), _, _, _, fs ++ ([] ++ [⟨name, body⟩]), ?_,
      hmoves.append (hinside.of_perm List.perm_append_comm), ?_, fun h => ?_, ?_⟩
    · rw [List.flatten_append, List.flatten_append, List.flatten_append, List.flatten_singleton,
        List.flatten_singleton]
    · have hall := (perm_append_between hperm es').append_right [⟨name, body⟩]
      simpa only [List.append_assoc, List.nil_append] using hall
    · cases h
    · rw [List.flatten_append, List.flatten_append, List.flatten_append, List.flatten_singleton,
        List.flatten_singleton]
      exact .define hns' hhead hbody' hend

theorem hoists_branches : ∀ {start : Position} {ts : List PlacedToken} {bs : List Branch}
    {ds : List Tree}, IsBranches defined start ts bs ds →
    ∃ gs hoisted main, ts = gs.flatten ∧ Hoists defined [.kept] gs hoisted main ds ds
      ∧ IsBranches defined start main.flatten bs []
  | _, _, _, _, .first hhead hbody => by
    obtain ⟨gs, hoisted, main, es, fs, rfl, hmoves, -, hinner, hbody'⟩ := hoists_nodes hbody
    obtain ⟨rfl, rfl⟩ := hinner rfl
    have hopen : Hoists defined [.kept] _ [] _ [] [] := .header hhead (fun _ => rfl) fun _ => rfl
    refine ⟨[_] ++ gs, _, _, ?_, hopen.append hmoves, ?_⟩
    · rw [List.flatten_append, List.flatten_singleton]
    · rw [List.flatten_append, List.flatten_singleton]
      exact .first hhead hbody'
  | _, _, _, _, .further hbs hhead hbody => by
    obtain ⟨gs, hoisted, main, rfl, hmoves, hbs'⟩ := hoists_branches hbs
    obtain ⟨gs', hoisted', main', es, fs, rfl, hmoves', -, hinner, hbody'⟩ := hoists_nodes hbody
    obtain ⟨rfl, rfl⟩ := hinner rfl
    have hall := (hmoves.append (.elseIf hhead)).append hmoves'
    simp only [List.append_nil] at hall
    refine ⟨gs ++ [_] ++ gs', _, _, ?_, hall, ?_⟩
    · rw [List.flatten_append, List.flatten_append, List.flatten_singleton]
    · rw [List.flatten_append, List.flatten_append, List.flatten_singleton]
      exact .further hbs' hhead hbody'

theorem hoists_alternative : ∀ {ts : List PlacedToken} {otherwise : Option (List Node)}
    {ds : List Tree}, IsAlternative defined ts otherwise ds →
    ∃ gs hoisted main, ts = gs.flatten ∧ Hoists defined [] gs hoisted main ds ds
      ∧ IsAlternative defined main.flatten otherwise []
  | _, _, _, .missing => ⟨[], [], [], rfl, .nil, .missing⟩
  | _, _, _, .given hhead hbody => by
    obtain ⟨gs, hoisted, main, es, fs, rfl, hmoves, -, hinner, hbody'⟩ := hoists_nodes hbody
    obtain ⟨rfl, rfl⟩ := hinner rfl
    refine ⟨[_] ++ gs, _, _, ?_, (Hoists.elseClause hhead).append hmoves, ?_⟩
    · rw [List.flatten_append, List.flatten_singleton]
    · rw [List.flatten_append, List.flatten_singleton]
      exact .given hhead hbody'

end

end Grammar

end Stencil
