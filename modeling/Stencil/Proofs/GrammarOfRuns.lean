/-
Whatever is parsed is derived by the grammar.

At every point of a run, the tokens read so far are explained by what the parser has: nodes for each
list that is open, the beginning of the construct that each frame stands for, and the beginning of an
action, within which every pipeline that is open has its own tokens. The invariant of a step is that
one more token is explained as well, and it is proved by saying for each kind of thing how it goes
on. Once nothing is open, what is left of the explanation is a derivation of all tokens.
-/
import Stencil.Proofs.GrammarReading

set_option autoImplicit false

namespace Stencil.Grammar

open Stencil.Parser Stencil.Runs

variable {defined : String → Bool}

/-! ## Pipelines that are being read -/

/-- The tokens read in a level: operands of the first command, or of one behind others. -/
inductive Holds (defined : String → Bool) : List PlacedToken → Level → Prop where
  | first {construct : Construct} {ts : List PlacedToken} {os : List Operand} :
      IsOperands defined ts os →
      Holds defined ts
        ⟨construct, ts.head?.map PlacedToken.pos, [], ts.head?.map PlacedToken.pos, os⟩
  | piped {construct : Construct} {t : PlacedToken} {ts us : List PlacedToken} {bar : Position}
      {cs : List Command} {os : List Operand} :
      IsCommands defined (t :: ts) cs → IsOperands defined us os →
      Holds defined (t :: ts ++ ⟨.pipe, bar⟩ :: us)
        ⟨construct, some t.pos, cs, us.head?.map PlacedToken.pos, os⟩

theorem holds_opened (construct : Construct) : Holds defined [] (.opened construct) := .first .nil

/-- A further operand is one of the open command, and begins it if it has none. -/
theorem Holds.add {ts us : List PlacedToken} {u : PlacedToken} {l : Level} {o : Operand}
    (h : Holds defined ts l) (ho : IsOperand defined (u :: us) o) :
    Holds defined (ts ++ u :: us) (l.add u.pos o) := by
  cases h with
  | @first construct _ os hos =>
    have hadd : Level.add ⟨construct, ts.head?.map PlacedToken.pos, [],
        ts.head?.map PlacedToken.pos, os⟩ u.pos o
          = ⟨construct, (ts ++ u :: us).head?.map PlacedToken.pos, [],
              (ts ++ u :: us).head?.map PlacedToken.pos, os ++ [o]⟩ := by
      cases ts <;> rfl
    rw [hadd]
    exact .first (.snoc hos ho)
  | @piped construct t ts vs bar cs os hcs hos =>
    have hadd : Level.add ⟨construct, some t.pos, cs, vs.head?.map PlacedToken.pos, os⟩ u.pos o
        = ⟨construct, some t.pos, cs, (vs ++ u :: us).head?.map PlacedToken.pos, os ++ [o]⟩ := by
      cases vs <;> rfl
    rw [hadd, List.append_assoc, List.cons_append]
    exact .piped hcs (.snoc hos ho)

/-- Commands that can be ended are there. -/
theorem Holds.endCommand {ts : List PlacedToken} {l e : Level} {pos : Position}
    (h : Holds defined ts l) (he : l.endCommand pos = .ok e) :
    ∃ t us cs, ts = t :: us ∧ IsCommands defined ts cs ∧ e = ⟨l.construct, some t.pos, cs, none, []⟩ := by
  unfold Level.endCommand at he
  split at he
  · exact absurd he (by simp)
  · rename_i hargs
    have he := (Except.ok.inj he).symm
    cases h with
    | @first construct _ os hos =>
      cases ts with
      | nil =>
        rw [eq_nil_of_isOperands hos] at hargs
        exact absurd rfl hargs
      | cons t us => exact ⟨t, us, _, rfl, .one (.operands hos), he⟩
    | @piped construct t ts vs bar cs os hcs hos =>
      cases vs with
      | nil =>
        rw [eq_nil_of_isOperands hos] at hargs
        exact absurd rfl hargs
      | cons v vs => exact ⟨t, _, _, rfl, .piped hcs (.operands hos), he⟩

/-- A pipeline that can be finished is there. -/
theorem Holds.finish {ts : List PlacedToken} {l : Level} {p : Pipeline} {pos : Position}
    (h : Holds defined ts l) (hp : l.finish pos = .ok p) : IsPipeline defined ts p := by
  obtain ⟨e, he, hp⟩ := monad_bind_eq_ok.1 hp
  obtain ⟨t, us, cs, rfl, hcs, rfl⟩ := h.endCommand he
  rw [← Except.ok.inj hp]
  exact .commands hcs

/-- The tokens read in the pipelines that are open. -/
inductive InLevels (defined : String → Bool) : List PlacedToken → List Level → Level → Prop where
  | outermost {ts : List PlacedToken} {l : Level} : Holds defined ts l → InLevels defined ts [] l
  | nested {ts us : List PlacedToken} {left : Position} {outer : List Level} {l l' : Level} :
      InLevels defined ts outer l → Holds defined us l' →
      InLevels defined (ts ++ ⟨.leftParen, left⟩ :: us) (l.reach left :: outer) l'

/-- What goes on in the innermost level goes on in all. -/
theorem InLevels.append {ts vs : List PlacedToken} {outer : List Level} {l l' : Level}
    (h : InLevels defined ts outer l)
    (hl : ∀ us, Holds defined us l → Holds defined (us ++ vs) l') :
    InLevels defined (ts ++ vs) outer l' := by
  cases h with
  | outermost hholds => exact .outermost (hl _ hholds)
  | nested hinner hholds =>
    rw [List.append_assoc, List.cons_append]
    exact .nested hinner (hl _ hholds)

/-- A token that the pipelines go on with is explained; one that ends the outermost is not part of
it. -/
theorem InLevels.step {ts : List PlacedToken} {outer : List Level} {inner : Level} {t : PlacedToken}
    {r : PipelineProgress} (h : InLevels defined ts outer inner)
    (hstep : PipelineProgress.step defined outer inner t = .ok r) :
    (∃ outer' inner', r = .reading outer' inner' ∧ InLevels defined (ts ++ [t]) outer' inner')
      ∨ ∃ p, r = .done p ∧ t.token = .actionEnd ∧ IsPipeline defined ts p := by
  obtain ⟨token, pos⟩ := t
  cases token with
  | pipe =>
    obtain ⟨e, he, hr⟩ := monad_bind_eq_ok.1 hstep
    refine Or.inl ⟨outer, e, (Except.ok.inj hr).symm, h.append fun us hus => ?_⟩
    obtain ⟨t, rest, cs, rfl, hcs, rfl⟩ := hus.endCommand he
    exact .piped hcs .nil
  | actionEnd =>
    obtain ⟨p, hp, hr⟩ := monad_bind_eq_ok.1 hstep
    cases h with
    | outermost hholds => exact Or.inr ⟨p, (Except.ok.inj hr).symm, rfl, hholds.finish hp⟩
    | nested _ _ => exact absurd hr (by simp)
  | rightParen =>
    obtain ⟨p, hp, hr⟩ := monad_bind_eq_ok.1 hstep
    cases h with
    | outermost _ => exact absurd hr (by simp)
    | @nested ts us left outer l _ hinner hholds =>
      have hoperand : IsOperand defined (⟨.leftParen, left⟩ :: (us ++ [⟨.rightParen, pos⟩]))
          (.pipeline p) := .parentheses (hholds.finish hp)
      -- The operand begins where the parenthesis opened, which the level has noted already.
      have hadd : (l.reach left).add pos (.pipeline p) = l.add left (.pipeline p) := rfl
      refine Or.inl ⟨outer, _, (Except.ok.inj hr).symm, ?_⟩
      rw [hadd, List.append_assoc]
      exact hinner.append fun vs hvs => hvs.add hoperand
  | leftParen =>
    exact Or.inl ⟨_, _, (Except.ok.inj hstep).symm, .nested h (holds_opened .parentheses)⟩
  | ident name =>
    simp only [PipelineProgress.step] at hstep
    split at hstep
    · rename_i hname
      refine Or.inl ⟨_, _, (Except.ok.inj hstep).symm, h.append fun us hus => ?_⟩
      exact hus.add (.function hname)
    · exact absurd hstep (by simp)
  | text _ | actionStart | keyword _ =>
    exact absurd hstep (by simp [PipelineProgress.step, Token.operand?])
  | _ =>
    refine Or.inl ⟨_, _, (Except.ok.inj hstep).symm, h.append fun us hus => ?_⟩
    exact hus.add (.value (isValue_iff.2 rfl))

/-! ## Actions that are being read -/

/-- The tokens from which on an action reads a pipeline for a purpose. -/
inductive Announces : List PlacedToken → Purpose → Prop where
  | output {start : Position} : Announces [⟨.actionStart, start⟩] .output
  | condition {start place : Position} :
      Announces [⟨.actionStart, start⟩, ⟨.keyword .ifWord, place⟩] (.condition start)
  | elseIf {start place place' : Position} :
      Announces [⟨.actionStart, start⟩, ⟨.keyword .elseWord, place⟩, ⟨.keyword .ifWord, place'⟩]
        (.elseIf start)
  | rebind {kind : Rebinding} {start place : Position} :
      Announces [⟨.actionStart, start⟩, ⟨.keyword kind.keyword, place⟩] (.rebind kind start)
  | named {kind : Named} {start place place' : Position} {name : String} :
      Announces [⟨.actionStart, start⟩, ⟨.keyword kind.keyword, place⟩, ⟨.string name, place'⟩]
        (.named kind start name)

/-- The tokens read of an action. Only in the outermost list there may be a definition. -/
inductive InAction (defined : String → Bool) : Bool → List PlacedToken → Mode → Prop where
  | outside {outermost : Bool} : InAction defined outermost [] .outside
  | opened {outermost : Bool} {start : Position} :
      InAction defined outermost [⟨.actionStart, start⟩] (.opened start)
  | afterElse {outermost : Bool} {start place : Position} :
      InAction defined outermost [⟨.actionStart, start⟩, ⟨.keyword .elseWord, place⟩]
        (.afterElse start)
  | endClause {outermost : Bool} {start place : Position} :
      InAction defined outermost [⟨.actionStart, start⟩, ⟨.keyword .endWord, place⟩]
        (.closing start .endClause)
  | namingDefine {start place : Position} :
      InAction defined true [⟨.actionStart, start⟩, ⟨.keyword .defineWord, place⟩] .namingDefine
  | define {start place pos : Position} {name : String} :
      InAction defined true
        [⟨.actionStart, start⟩, ⟨.keyword .defineWord, place⟩, ⟨.string name, pos⟩]
        (.closing pos (.define pos name))
  | naming {outermost : Bool} {kind : Named} {start place : Position} :
      InAction defined outermost [⟨.actionStart, start⟩, ⟨.keyword kind.keyword, place⟩]
        (.naming kind start)
  | named {outermost : Bool} {kind : Named} {start place place' : Position} {name : String} :
      InAction defined outermost
        [⟨.actionStart, start⟩, ⟨.keyword kind.keyword, place⟩, ⟨.string name, place'⟩]
        (.named kind start name)
  | pipeline {outermost : Bool} {hs ts : List PlacedToken} {purpose : Purpose} {outer : List Level}
      {inner : Level} :
      Announces hs purpose → InLevels defined ts outer inner →
      InAction defined outermost (hs ++ ts) (.pipeline purpose outer inner)

/-! ## Constructs that are being read -/

/-- The tokens of a construct up to the body that a frame stands for. -/
inductive IsOpening (defined : String → Bool) :
    Bool → List PlacedToken → Frame → List Tree → Prop where
  | firstBranch {outermost : Bool} {start : Position} {hs : List PlacedToken} {p : Pipeline} :
      IsHeader defined .ifWord start hs p →
      IsOpening defined outermost hs (.branch start [] p) []
  | furtherBranch {outermost : Bool} {start : Position} {ts hs : List PlacedToken}
      {bs : List Branch} {p : Pipeline} {ds : List Tree} :
      IsBranches defined start ts bs ds → IsElseIf defined hs p →
      IsOpening defined outermost (ts ++ hs) (.branch start bs p) ds
  | elseOfBranches {outermost : Bool} {start : Position} {ts hs : List PlacedToken}
      {bs : List Branch} {ds : List Tree} :
      IsBranches defined start ts bs ds → IsClause .elseWord hs →
      IsOpening defined outermost (ts ++ hs) (.elseOfBranches start bs) ds
  | rebind {outermost : Bool} {kind : Rebinding} {start : Position} {hs : List PlacedToken}
      {p : Pipeline} :
      IsHeader defined kind.keyword start hs p →
      IsOpening defined outermost hs (.rebind kind start p) []
  | elseOfRebind {outermost : Bool} {kind : Rebinding} {start : Position}
      {hs ts us : List PlacedToken} {p : Pipeline} {body : List Node} {ds : List Tree} :
      IsHeader defined kind.keyword start hs p → IsNodes defined false ts body ds →
      IsClause .elseWord us →
      IsOpening defined outermost (hs ++ ts ++ us) (.elseOfRebind kind start p body) ds
  | define {pos : Position} {name : String} {hs : List PlacedToken} :
      IsDefineHeader name hs → IsOpening defined true hs (.define pos name) []
  | block {outermost : Bool} {start : Position} {name : String} {hs : List PlacedToken}
      {p : Option Pipeline} :
      IsNamedHeader defined .blockWord start name hs p →
      IsOpening defined outermost hs (.block start name p) []

/-- The tokens up to an action, with the constructs that are open, the nodes of the current list and
the definitions that are complete. -/
inductive IsBody (defined : String → Bool) :
    List PlacedToken → List Opened → List Node → List Tree → Prop where
  | outermost {ts : List PlacedToken} {ns : List Node} {ds : List Tree} :
      IsNodes defined true ts ns ds → IsBody defined ts [] ns ds
  | inside {ts us vs : List PlacedToken} {outer : List Opened} {before ns : List Node}
      {frame : Frame} {ds ds' ds'' : List Tree} :
      IsBody defined ts outer before ds → IsOpening defined outer.isEmpty us frame ds' →
      IsNodes defined false vs ns ds'' →
      IsBody defined (ts ++ us ++ vs) (⟨frame, before⟩ :: outer) ns (ds ++ ds' ++ ds'')

/-! ## Constructs that go on or end -/

section
variable {outermost : Bool} {ts us vs ws : List PlacedToken} {ds ds' : List Tree} {body : List Node}
  {start : Position}

/-- The branch that is being read belongs to the branches of its conditional. -/
theorem IsOpening.branches {done : List Branch} {guard : Pipeline}
    (h : IsOpening defined outermost us (.branch start done guard) ds)
    (hbody : IsNodes defined false vs body ds') :
    IsBranches defined start (us ++ vs) (done ++ [⟨guard, body⟩]) (ds ++ ds') := by
  cases h with
  | firstBranch hhead => exact .first hhead hbody
  | furtherBranch hbs hhead => exact .further hbs hhead hbody

/-- A rebinding goes on with its last alternative. -/
theorem IsOpening.elseOf {kind : Rebinding} {p : Pipeline}
    (h : IsOpening defined outermost us (.rebind kind start p) ds)
    (hbody : IsNodes defined false vs body ds') (helse : IsClause .elseWord ws) :
    IsOpening defined outermost (us ++ vs ++ ws) (.elseOfRebind kind start p body) (ds ++ ds') := by
  cases h with
  | rebind hhead => exact .elseOfRebind hhead hbody helse

/-- What the end makes of a construct whose last body has been read: a node, and perhaps one more
definition. -/
theorem IsOpening.node {frame : Frame} {n : Node} {more : List Tree}
    (h : IsOpening defined outermost us frame ds) (hbody : IsNodes defined false vs body ds')
    (hend : IsClause .endWord ws)
    (hn : match frame with
      | .branch start done guard => n = .conditional start (done ++ [⟨guard, body⟩]) none ∧ more = []
      | .elseOfBranches start branches => n = .conditional start branches (some body) ∧ more = []
      | .rebind kind start p => n = .rebind kind start p body none ∧ more = []
      | .elseOfRebind kind start p first => n = .rebind kind start p first (some body) ∧ more = []
      | .define _ _ => False
      | .block start name p => n = .call start name p ∧ more = [⟨name, body⟩]) :
    IsNode defined (us ++ vs ++ ws) n (ds ++ ds' ++ more) := by
  cases frame with
  | branch start done guard =>
    obtain ⟨rfl, rfl⟩ := hn
    have hnode := IsNode.conditional (h.branches hbody) .missing hend
    rwa [List.append_nil] at hnode
  | elseOfBranches start branches =>
    obtain ⟨rfl, rfl⟩ := hn
    cases h with
    | elseOfBranches hbs helse =>
      rw [List.append_nil, List.append_assoc _ _ vs]
      exact .conditional hbs (.given helse hbody) hend
  | rebind kind start p =>
    obtain ⟨rfl, rfl⟩ := hn
    cases h with
    | rebind hhead =>
      have hnode := IsNode.rebind hhead hbody .missing hend
      rwa [List.append_nil] at hnode
  | elseOfRebind kind start p first =>
    obtain ⟨rfl, rfl⟩ := hn
    cases h with
    | elseOfRebind hhead hfirst helse =>
      rw [List.append_nil, List.append_assoc _ _ vs]
      exact .rebind hhead hfirst (.given helse hbody) hend
  | define pos name => exact absurd hn id
  | block start name p =>
    obtain ⟨rfl, rfl⟩ := hn
    cases h with
    | block hhead => exact .block hhead hbody hend

end

namespace IsBody

variable {ts us : List PlacedToken} {opened outer : List Opened} {frame : Frame}
  {before ns : List Node} {ds : List Tree}

/-- A node that is complete belongs to the current list. -/
theorem node {n : Node} {ds' : List Tree} (h : IsBody defined ts opened ns ds)
    (hn : IsNode defined us n ds') : IsBody defined (ts ++ us) opened (ns ++ [n]) (ds ++ ds') := by
  cases h with
  | outermost hns => exact .outermost (.node hns hn)
  | inside hbefore hopening hns =>
    rw [List.append_assoc, List.append_assoc _ _ ds']
    exact .inside hbefore hopening (.node hns hn)

/-- A construct begins behind the nodes of the current list. -/
theorem enter {ds' : List Tree} (h : IsBody defined ts opened ns ds)
    (hopening : IsOpening defined opened.isEmpty us frame ds') :
    IsBody defined (ts ++ us) (⟨frame, ns⟩ :: opened) [] (ds ++ ds') := by
  have hinside := IsBody.inside h hopening .nil
  rwa [List.append_nil, List.append_nil] at hinside

/-- A further body of the innermost construct begins: what was its last body belongs to its opening. -/
theorem switch {frame' : Frame} (h : IsBody defined ts (⟨frame, before⟩ :: outer) ns ds)
    (hframe : ∀ {outermost : Bool} {vs ws : List PlacedToken} {ds ds' : List Tree},
      IsOpening defined outermost vs frame ds → IsNodes defined false ws ns ds' →
      IsOpening defined outermost (vs ++ ws ++ us) frame' (ds ++ ds')) :
    IsBody defined (ts ++ us) (⟨frame', before⟩ :: outer) [] ds := by
  cases h with
  | inside hbefore hopening hns =>
    have hinside := hbefore.enter (hframe hopening hns)
    simpa only [List.append_assoc] using hinside

/-- The innermost construct ends, and makes a node of the list that it stands in. -/
theorem leave {n : Node} {more : List Tree} (h : IsBody defined ts (⟨frame, before⟩ :: outer) ns ds)
    (hnode : ∀ {outermost : Bool} {vs ws : List PlacedToken} {ds ds' : List Tree},
      IsOpening defined outermost vs frame ds → IsNodes defined false ws ns ds' →
      IsNode defined (vs ++ ws ++ us) n (ds ++ ds' ++ more)) :
    IsBody defined (ts ++ us) outer (before ++ [n]) (ds ++ more) := by
  cases h with
  | inside hbefore hopening hns =>
    have hinside := hbefore.node (hnode hopening hns)
    simpa only [List.append_assoc] using hinside

/-- A definition ends. It stands in the outermost list and makes no node of it. -/
theorem define {pos : Position} {name : String}
    (h : IsBody defined ts (⟨.define pos name, before⟩ :: outer) ns ds)
    (hend : IsClause .endWord us) :
    IsBody defined (ts ++ us) outer before (ds ++ [⟨name, ns⟩]) := by
  cases h with
  | @inside ts hs vs _ _ _ _ ds ds' ds'' hbefore hopening hns =>
    generalize hout : outer.isEmpty = outermost at hopening
    cases hopening with
    | define hhead =>
      obtain rfl : outer = [] := by simpa using hout
      cases hbefore with
      | outermost hbefore =>
        have hnodes := IsNodes.define hbefore hhead hns hend
        simp only [List.append_assoc, List.nil_append] at hnodes ⊢
        exact .outermost hnodes

end IsBody

/-! ## States -/

/-- Says that tokens up to an action lead to a state. -/
def Reached (defined : String → Bool) (ts : List PlacedToken) (s : State) : Prop :=
  ∃ ds, IsBody defined ts s.opened s.nodes ds ∧ Compatible ds ∧ s.defines = collected ds

namespace Reached

variable {ts us vs : List PlacedToken} {s s' : State}

theorem push {n : Node} (h : Reached defined ts s) (hn : IsNode defined us n []) :
    Reached defined (ts ++ us) (s.push n) := by
  obtain ⟨ds, hbody, hcompatible, hdefines⟩ := h
  have hnode := hbody.node hn
  rw [List.append_nil] at hnode
  exact ⟨ds, hnode, hcompatible, hdefines⟩

theorem enter {frame : Frame} (h : Reached defined ts s)
    (hopening : IsOpening defined s.opened.isEmpty us frame []) :
    Reached defined (ts ++ us) (s.enter frame) := by
  obtain ⟨ds, hbody, hcompatible, hdefines⟩ := h
  have hinside := hbody.enter hopening
  rw [List.append_nil] at hinside
  exact ⟨ds, hinside, hcompatible, hdefines⟩

/-- The definitions with one more are those that the grammar then has. -/
theorem collected_of_define {ds : List Tree} {pos : Position} {name : String}
    (hcompatible : Compatible ds) (hdefines : s.defines = collected ds)
    (h : s.define pos name = .ok s') :
    Compatible (ds ++ [⟨name, s.nodes⟩]) ∧ s' = { s with defines := collected (ds ++ [⟨name, s.nodes⟩]) } := by
  obtain ⟨d, hadd, hd⟩ := monad_bind_eq_ok.1 h
  rw [hdefines] at hadd
  obtain ⟨hmore, rfl⟩ := (addDefine_collected_iff hcompatible).1 hadd
  exact ⟨hmore, (Except.ok.inj hd).symm⟩

/-- The end of a construct makes a node of it, or a definition. -/
theorem endClause {pos : Position} (h : Reached defined ts s) (hend : IsClause .endWord us)
    (hs : s.endClause pos = .ok s') : Reached defined (ts ++ us) s' ∧ s'.mode = .outside := by
  obtain ⟨nodes, opened, defines, mode⟩ := s
  obtain ⟨ds, hbody, hcompatible, hdefines⟩ := h
  match opened with
  | [] => exact absurd hs (by simp [State.endClause])
  | ⟨frame, before⟩ :: outer =>
    cases frame with
    | define start name =>
      obtain ⟨next, hdefine, hs⟩ := monad_bind_eq_ok.1 hs
      obtain ⟨hmore, rfl⟩ := collected_of_define hcompatible hdefines hdefine
      rw [← Except.ok.inj hs]
      exact ⟨⟨_, hbody.define hend, hmore, rfl⟩, rfl⟩
    | block start name p =>
      obtain ⟨next, hdefine, hs⟩ := monad_bind_eq_ok.1 hs
      obtain ⟨hmore, rfl⟩ := collected_of_define hcompatible hdefines hdefine
      rw [← Except.ok.inj hs]
      exact ⟨⟨_, hbody.leave fun hopening hns => hopening.node hns hend ⟨rfl, rfl⟩, hmore, rfl⟩, rfl⟩
    | _ =>
      rw [← Except.ok.inj hs]
      have hleft := hbody.leave fun hopening hns => hopening.node hns hend ⟨rfl, rfl⟩
      rw [List.append_nil] at hleft
      exact ⟨⟨_, hleft, hcompatible, hdefines⟩, rfl⟩

/-- The last alternative of a construct begins. -/
theorem elseClause {pos : Position} (h : Reached defined ts s) (helse : IsClause .elseWord us)
    (hs : s.elseClause pos = .ok s') : Reached defined (ts ++ us) s' ∧ s'.mode = .outside := by
  obtain ⟨nodes, opened, defines, mode⟩ := s
  obtain ⟨ds, hbody, hcompatible, hdefines⟩ := h
  match opened with
  | [] => exact absurd hs (by simp [State.elseClause])
  | ⟨frame, before⟩ :: outer =>
    cases frame with
    | branch start done guard =>
      rw [← Except.ok.inj hs]
      have hnext := hbody.switch fun hopening hns =>
        .elseOfBranches (hopening.branches hns) helse
      exact ⟨⟨ds, hnext, hcompatible, hdefines⟩, rfl⟩
    | rebind kind start p =>
      rw [← Except.ok.inj hs]
      have hnext := hbody.switch fun hopening hns => hopening.elseOf hns helse
      exact ⟨⟨ds, hnext, hcompatible, hdefines⟩, rfl⟩
    | _ => exact absurd hs (by simp [State.elseClause])

/-- A further branch of a conditional begins. -/
theorem elseIf {pos : Position} {p : Pipeline} (h : Reached defined ts s)
    (helse : IsElseIf defined us p) (hs : s.elseIf pos p = .ok s') :
    Reached defined (ts ++ us) s' ∧ s'.mode = .outside := by
  obtain ⟨nodes, opened, defines, mode⟩ := s
  obtain ⟨ds, hbody, hcompatible, hdefines⟩ := h
  match opened with
  | [] => exact absurd hs (by simp [State.elseIf])
  | ⟨frame, before⟩ :: outer =>
    cases frame with
    | branch start done guard =>
      rw [← Except.ok.inj hs]
      have hnext := hbody.switch fun hopening hns =>
        .furtherBranch (hopening.branches hns) helse
      exact ⟨⟨ds, hnext, hcompatible, hdefines⟩, rfl⟩
    | _ => exact absurd hs (by simp [State.elseIf])

/-- An action with a pipeline is complete behind its closing delimiter. -/
theorem finishPipeline {purpose : Purpose} {p : Pipeline} {close : Position}
    (h : Reached defined ts s) (hwords : Announces us purpose) (hp : IsPipeline defined vs p)
    (hs : s.finishPipeline p purpose = .ok s') :
    Reached defined (ts ++ (us ++ vs ++ [⟨.actionEnd, close⟩])) s' ∧ s'.mode = .outside := by
  cases hwords with
  | @output start =>
    rw [← Except.ok.inj hs]
    exact ⟨h.push (.output hp), rfl⟩
  | @condition start place =>
    rw [← Except.ok.inj hs]
    exact ⟨h.enter (.firstBranch (.mk hp)), rfl⟩
  | @elseIf start place place' => exact h.elseIf (.mk hp) hs
  | @rebind kind start place =>
    rw [← Except.ok.inj hs]
    exact ⟨h.enter (.rebind (.mk hp)), rfl⟩
  | @named kind start place place' name =>
    rw [← Except.ok.inj hs]
    cases kind with
    | call => exact ⟨h.push (.call (.mk (.given hp))), rfl⟩
    | block => exact ⟨h.enter (.block (.mk (.given hp))), rfl⟩

end Reached

/-- Says that tokens explain a state: they lead up to an action, and into it as far as the state is.
-/
def Explained (defined : String → Bool) (done : List PlacedToken) (s : State) : Prop :=
  ∃ ts us, done = ts ++ us ∧ Reached defined ts s ∧ InAction defined s.opened.isEmpty us s.mode

theorem explained_of_reached {ts : List PlacedToken} {s : State}
    (h : Reached defined ts s ∧ s.mode = .outside) : Explained defined ts s := by
  refine ⟨ts, [], (List.append_nil ts).symm, h.1, ?_⟩
  rw [h.2]
  exact .outside

/-- An action in which a pipeline is to be read is explained. -/
theorem explained_awaitPipeline {ts us : List PlacedToken} {s : State} {purpose : Purpose}
    (h : Reached defined ts s) (hwords : Announces us purpose) :
    Explained defined (ts ++ us) (s.awaitPipeline purpose) := by
  have haction : InAction defined s.opened.isEmpty (us ++ []) (s.awaitPipeline purpose).mode :=
    .pipeline hwords (.outermost (holds_opened _))
  rw [List.append_nil] at haction
  exact ⟨ts, us, rfl, h, haction⟩

/-- A token of a pipeline is explained, also the one that ends it. -/
theorem explained_stepPipeline {ts us vs : List PlacedToken} {s s' : State} {purpose : Purpose}
    {outer : List Level} {inner : Level} {t : PlacedToken} (h : Reached defined ts s)
    (hwords : Announces us purpose) (hlevels : InLevels defined vs outer inner)
    (hs : s.stepPipeline defined purpose outer inner t = .ok s') :
    Explained defined (ts ++ (us ++ vs ++ [t])) s' := by
  obtain ⟨token, pos⟩ := t
  obtain ⟨r, hr, hnext⟩ := monad_bind_eq_ok.1 hs
  rcases hlevels.step hr with ⟨outer', inner', rfl, hreading⟩ | ⟨p, rfl, rfl, hp⟩
  · rw [← Except.ok.inj hnext, List.append_assoc us]
    exact ⟨ts, _, rfl, h, .pipeline hwords hreading⟩
  · exact explained_of_reached (h.finishPipeline hwords hp hnext)

/-- A keyword at the beginning of an action is explained. -/
theorem explained_stepKeyword {ts : List PlacedToken} {s s' : State} {start place : Position}
    {k : Keyword} (h : Reached defined ts s) (hs : s.stepKeyword start k = .ok s') :
    Explained defined (ts ++ [⟨.actionStart, start⟩, ⟨.keyword k, place⟩]) s' := by
  cases k with
  | endWord =>
    rw [← Except.ok.inj hs]
    exact ⟨ts, _, rfl, h, .endClause⟩
  | elseWord =>
    rw [← Except.ok.inj hs]
    exact ⟨ts, _, rfl, h, .afterElse⟩
  | ifWord =>
    rw [← Except.ok.inj hs]
    exact explained_awaitPipeline h .condition
  | rangeWord =>
    rw [← Except.ok.inj hs]
    exact explained_awaitPipeline h (@Announces.rebind .range start place)
  | withWord =>
    rw [← Except.ok.inj hs]
    exact explained_awaitPipeline h (@Announces.rebind .scoped start place)
  | defineWord =>
    simp only [State.stepKeyword] at hs
    split at hs
    · rename_i houtermost
      rw [← Except.ok.inj hs]
      refine ⟨ts, _, rfl, h, ?_⟩
      show InAction defined s.opened.isEmpty _ _
      rw [houtermost]
      exact .namingDefine
    · exact absurd hs (by simp)
  | blockWord =>
    rw [← Except.ok.inj hs]
    exact ⟨ts, _, rfl, h, @InAction.naming _ _ .block start place⟩
  | templateWord =>
    rw [← Except.ok.inj hs]
    exact ⟨ts, _, rfl, h, @InAction.naming _ _ .call start place⟩

/-- **One more token.** If what has been read explains the state, so does what has been read once a
token is accepted. -/
theorem explained_step {done : List PlacedToken} {t : PlacedToken} {s s' : State}
    (h : Explained defined done s) (hs : s.step defined t = .ok s') :
    Explained defined (done ++ [t]) s' := by
  obtain ⟨ts, us, rfl, hreached, haction⟩ := h
  obtain ⟨nodes, opened, defines, mode⟩ := s
  obtain ⟨token, pos⟩ := t
  rw [List.append_assoc]
  -- What was reached before the action does not depend on where in it the parser stands.
  have hkept : ∀ m, Reached defined ts ⟨nodes, opened, defines, m⟩ := fun _ => hreached
  change InAction defined opened.isEmpty us mode at haction
  generalize hout : opened.isEmpty = outermost at haction
  -- One case for each place in an action; a token that does not fit there ends the run.
  cases haction with
  | outside =>
    cases token with
    | text text =>
      rw [← Except.ok.inj hs]
      exact explained_of_reached ⟨hreached.push .text, rfl⟩
    | actionStart =>
      rw [← Except.ok.inj hs]
      exact ⟨ts, _, rfl, hreached, .opened⟩
    | _ => exact absurd hs (by simp [State.step])
  | @opened _ start =>
    cases token with
    | keyword k => exact explained_stepKeyword (hkept _) hs
    | _ => exact explained_stepPipeline (hkept _) .output (.outermost (holds_opened .command)) hs
  | @afterElse _ start place =>
    cases token with
    | actionEnd => exact explained_of_reached ((hkept _).elseClause .mk hs)
    | keyword k =>
      cases k with
      | ifWord =>
        rw [← Except.ok.inj hs]
        exact explained_awaitPipeline (hkept _) .elseIf
      | _ => exact absurd hs (by simp [State.step, State.stepClosing])
    | _ => exact absurd hs (by simp [State.step, State.stepClosing])
  | @endClause _ start place =>
    cases token with
    | actionEnd => exact explained_of_reached ((hkept _).endClause .mk hs)
    | _ => exact absurd hs (by simp [State.step, State.stepClosing])
  | @namingDefine start place =>
    cases token with
    | string name =>
      rw [← Except.ok.inj hs]
      refine ⟨ts, _, rfl, hreached, ?_⟩
      show InAction defined opened.isEmpty _ _
      rw [hout]
      exact .define
    | _ => exact absurd hs (by simp [State.step])
  | @define start place pos name =>
    cases token with
    | actionEnd =>
      rw [← Except.ok.inj hs]
      refine explained_of_reached ⟨(hkept _).enter ?_, rfl⟩
      show IsOpening defined opened.isEmpty _ _ _
      rw [hout]
      exact .define .mk
    | _ => exact absurd hs (by simp [State.step, State.stepClosing])
  | @naming _ kind start place =>
    cases token with
    | string name =>
      rw [← Except.ok.inj hs]
      exact ⟨ts, _, rfl, hreached, .named⟩
    | _ => exact absurd hs (by simp [State.step])
  | @named _ kind start place place' name =>
    cases token with
    | actionEnd =>
      rw [← Except.ok.inj hs]
      cases kind with
      | call => exact explained_of_reached ⟨(hkept _).push (.call (.mk .missing)), rfl⟩
      | block => exact explained_of_reached ⟨(hkept _).enter (.block (.mk .missing)), rfl⟩
    | _ => exact explained_stepPipeline (hkept _) .named (.outermost (holds_opened _)) hs
  | pipeline hwords hlevels => exact explained_stepPipeline hreached hwords hlevels hs

/-! ## Sources -/

/-- Tokens that are read explain where the parser then stands. -/
theorem explained_of_run {tokens : List PlacedToken} {s : State}
    (h : run defined .initial tokens = .ok s) : Explained defined tokens s := by
  have hinitial : Explained defined [] .initial :=
    explained_of_reached ⟨⟨[], .outermost .nil, List.Pairwise.nil, rfl⟩, rfl⟩
  exact foldlM_invariant (Explained defined) (fun _ _ _ _ => explained_step) hinitial h

/-- Tokens that are read to the end are an outermost list of nodes. -/
theorem isNodes_of_run {tokens : List PlacedToken} {s : State}
    (h : run defined .initial tokens = .ok s) (hopened : s.opened = []) (hmode : s.mode = .outside) :
    ∃ ds, IsNodes defined true tokens s.nodes ds ∧ Compatible ds ∧ s.defines = collected ds := by
  obtain ⟨ts, us, rfl, ⟨ds, hbody, hcompatible, hdefines⟩, haction⟩ := explained_of_run h
  rw [hmode, hopened] at haction
  rw [hopened] at hbody
  cases haction
  cases hbody with
  | outermost hnodes =>
    rw [List.append_nil]
    exact ⟨ds, hnodes, hcompatible, hdefines⟩

/-- What is parsed is a template of the grammar. -/
theorem isTemplate_of_parseTokens {functions : FuncTable} {name : String}
    {tokens : List PlacedToken} {parsed : ParsedSource}
    (h : parseTokens functions.defines name tokens = .ok parsed) :
    IsTemplate functions name tokens parsed := by
  obtain ⟨s, hrun, hmode, hopened, rfl⟩ := parseTokens_eq_ok h
  obtain ⟨ds, hnodes, hcompatible, hdefines⟩ := isNodes_of_run hrun hopened hmode
  exact ⟨s.nodes, ds, hnodes, hcompatible, by rw [hdefines]⟩

/-- **The parser accepts its grammar.** Tokens are parsed to given templates exactly if the grammar
derives these templates from them, and a source is parsed exactly if it has tokens and they are. -/
theorem parse_eq_ok_iff_isTemplate (functions : FuncTable) (name : String) :
    (∀ tokens parsed, parseTokens functions.defines name tokens = .ok parsed
        ↔ IsTemplate functions name tokens parsed)
      ∧ ∀ source parsed, parse functions.defines name source = .ok parsed
        ↔ ∃ tokens, tokensOf source = .ok tokens ∧ IsTemplate functions name tokens parsed := by
  have htokens : ∀ tokens parsed, parseTokens functions.defines name tokens = .ok parsed
      ↔ IsTemplate functions name tokens parsed :=
    fun _ _ => ⟨isTemplate_of_parseTokens, parseTokens_of_isTemplate⟩
  refine ⟨htokens, fun source parsed => ?_⟩
  rw [parse_eq_ok_iff_tokens]
  exact exists_congr fun tokens => and_congr Iff.rfl (htokens tokens parsed)

end Stencil.Grammar
