/-
The name of a parsed source and the names it defines.

A source is parsed under a name, which is the name of its main tree. Its definitions are collected
while the tokens are read: no token but the end of a definition or block touches them, and that one
only through `addDefine`, which keeps the names distinct. The invariant of a step is therefore an
invariant of the whole parse.
-/
import Mathlib.Data.List.Nodup
import Stencil.Proofs.Runs
import Stencil.Template.Parser

set_option autoImplicit false

namespace Stencil.Parser

open Stencil.Runs

/-! ## One definition -/

/-- A definition either meets its name among those before it or appends it. -/
theorem names_of_addDefine {tree : Tree} {pos : Position} {ts added : List Tree}
    (h : addDefine tree pos ts = .ok added) :
    added.map Tree.name = ts.map Tree.name
      ∨ (tree.name ∉ ts.map Tree.name
          ∧ added.map Tree.name = ts.map Tree.name ++ [tree.name]) := by
  induction ts generalizing added with
  | nil =>
    rw [← Except.ok.inj h]
    exact Or.inr ⟨by simp, rfl⟩
  | cons t rest ih =>
    unfold addDefine at h
    by_cases hname : t.name = tree.name
    · rw [if_pos hname] at h
      left
      split at h
      · rw [← Except.ok.inj h]
      · split at h
        · rw [← Except.ok.inj h, List.map_cons, List.map_cons, hname]
        · exact absurd h (by simp)
    · rw [if_neg hname] at h
      obtain ⟨more, hmore, hadded⟩ := monad_bind_eq_ok.1 h
      rw [← Except.ok.inj hadded]
      rcases ih hmore with hkept | ⟨hfresh, hnew⟩
      · left
        rw [List.map_cons, List.map_cons, hkept]
      · right
        refine ⟨?_, ?_⟩
        · rw [List.map_cons, List.mem_cons, not_or]
          exact ⟨fun h' => hname h'.symm, hfresh⟩
        · rw [List.map_cons, List.map_cons, hnew, List.cons_append]

/-- A definition of a new name comes behind the others. -/
theorem addDefine_of_new {tree : Tree} {pos : Position} {ts : List Tree}
    (h : tree.name ∉ ts.map Tree.name) : addDefine tree pos ts = .ok (ts ++ [tree]) := by
  induction ts with
  | nil => rfl
  | cons t rest ih =>
    rw [List.map_cons, List.mem_cons, not_or] at h
    unfold addDefine
    rw [if_neg (Ne.symm h.1), ih h.2]
    rfl

/-- The names stay distinct. -/
theorem nodup_names_of_addDefine {tree : Tree} {pos : Position} {ts added : List Tree}
    (h : addDefine tree pos ts = .ok added) (hts : (ts.map Tree.name).Nodup) :
    (added.map Tree.name).Nodup := by
  rcases names_of_addDefine h with hkept | ⟨hfresh, hnew⟩
  · rwa [hkept]
  · rw [hnew, List.nodup_append]
    refine ⟨hts, List.nodup_singleton _, ?_⟩
    intro a ha b hb hab
    rw [List.mem_singleton] at hb
    exact hfresh (hb ▸ hab ▸ ha)

/-! ## One token

Most actions leave the definitions alone, and all that do not go through `State.define`. -/

namespace State

/-- What a step makes of the definitions: nothing, or one more through `addDefine`. -/
def DefinesGrow (s s' : State) : Prop :=
  s'.defines = s.defines ∨ ∃ tree pos, addDefine tree pos s.defines = .ok s'.defines

theorem DefinesGrow.of_eq {s s' : State} (h : s'.defines = s.defines) : s.DefinesGrow s' := Or.inl h

theorem definesGrow_of_define {s s' : State} {pos : Position} {name : String}
    (h : s.define pos name = .ok s') : s.DefinesGrow s' := by
  obtain ⟨defines, hadd, hs⟩ := monad_bind_eq_ok.1 h
  right
  refine ⟨⟨name, s.nodes⟩, pos, ?_⟩
  rw [hadd, ← Except.ok.inj hs]

theorem definesGrow_of_endClause {s s' : State} {pos : Position} (h : s.endClause pos = .ok s') :
    s.DefinesGrow s' := by
  unfold endClause at h
  split at h
  · exact absurd h (by simp)
  · split at h
    -- Only the frames of definitions and blocks add one.
    case h_5 | h_6 =>
      obtain ⟨defined, hdefined, hs⟩ := monad_bind_eq_ok.1 h
      have hgrow : s.DefinesGrow defined := definesGrow_of_define hdefined
      rw [← Except.ok.inj hs]
      exact hgrow
    all_goals
      rw [← Except.ok.inj h]
      exact .of_eq rfl

theorem defines_of_elseClause {s s' : State} {pos : Position} (h : s.elseClause pos = .ok s') :
    s'.defines = s.defines := by
  unfold elseClause at h
  split at h
  · exact absurd h (by simp)
  · split at h
    case h_3 => exact absurd h (by simp)
    all_goals
      rw [← Except.ok.inj h]
      rfl

theorem defines_of_elseIf {s s' : State} {pos : Position} {p : Pipeline}
    (h : s.elseIf pos p = .ok s') : s'.defines = s.defines := by
  unfold elseIf at h
  split at h
  · exact absurd h (by simp)
  · split at h
    case h_1 =>
      rw [← Except.ok.inj h]
      rfl
    all_goals exact absurd h (by simp)

theorem defines_finishNamed (s : State) (kind : Named) (pos : Position) (name : String)
    (p : Option Pipeline) : (s.finishNamed kind pos name p).defines = s.defines := by
  cases kind <;> rfl

theorem defines_of_finishPipeline {s s' : State} {p : Pipeline} {purpose : Purpose}
    (h : s.finishPipeline p purpose = .ok s') : s'.defines = s.defines := by
  cases purpose with
  | elseIf pos => exact defines_of_elseIf h
  | named kind pos name =>
    rw [← Except.ok.inj h]
    exact defines_finishNamed s kind pos name (some p)
  | output | condition pos | rebind kind pos =>
    rw [← Except.ok.inj h]
    rfl

theorem definesGrow_of_finishClosing {s s' : State} {pos : Position} {what : Closing}
    (h : s.finishClosing pos what = .ok s') : s.DefinesGrow s' := by
  cases what with
  | endClause => exact definesGrow_of_endClause h
  | elseClause => exact .of_eq (defines_of_elseClause h)
  | define start name =>
    rw [← Except.ok.inj h]
    exact .of_eq rfl

theorem defines_of_stepPipeline {defined : String → Bool} {s s' : State} {purpose : Purpose}
    {outer : List Level} {inner : Level} {t : PlacedToken}
    (h : s.stepPipeline defined purpose outer inner t = .ok s') : s'.defines = s.defines := by
  obtain ⟨progress, _, hprogress⟩ := monad_bind_eq_ok.1 h
  cases progress with
  | reading outer inner =>
    rw [← Except.ok.inj hprogress]
  | done p => exact defines_of_finishPipeline hprogress

theorem defines_of_stepKeyword {s s' : State} {pos : Position} {k : Keyword}
    (h : s.stepKeyword pos k = .ok s') : s'.defines = s.defines := by
  cases k with
  | defineWord =>
    simp only [stepKeyword] at h
    split at h
    · rw [← Except.ok.inj h]
    · exact absurd h (by simp)
  | endWord | elseWord | blockWord | templateWord => rw [← Except.ok.inj h]
  | ifWord | rangeWord | withWord =>
    rw [← Except.ok.inj h]
    rfl

theorem definesGrow_of_stepClosing {s s' : State} {pos : Position} {what : Closing}
    {t : PlacedToken} (h : s.stepClosing pos what t = .ok s') : s.DefinesGrow s' := by
  unfold stepClosing at h
  split at h
  · exact definesGrow_of_finishClosing h
  · exact absurd h (by simp)

/-- A token adds at most one definition. -/
theorem definesGrow_of_step {defined : String → Bool} {s s' : State} {t : PlacedToken}
    (h : s.step defined t = .ok s') : s.DefinesGrow s' := by
  unfold step at h
  split at h
  case h_1 =>
    split at h
    case h_3 => exact absurd h (by simp)
    all_goals
      rw [← Except.ok.inj h]
      exact .of_eq rfl
  case h_2 =>
    split at h
    · exact .of_eq (defines_of_stepKeyword h)
    · exact .of_eq (defines_of_stepPipeline h)
  case h_3 =>
    split at h
    · rw [← Except.ok.inj h]
      exact .of_eq rfl
    · exact definesGrow_of_stepClosing h
  case h_4 => exact definesGrow_of_stepClosing h
  case h_5 | h_6 =>
    split at h
    · rw [← Except.ok.inj h]
      exact .of_eq rfl
    · exact absurd h (by simp)
  case h_7 kind pos name _ =>
    -- A name may be followed by the end of the action or by a pipeline.
    split at h
    · rw [← Except.ok.inj h]
      exact .of_eq (defines_finishNamed s kind pos name none)
    · exact .of_eq (defines_of_stepPipeline h)
  case h_8 => exact .of_eq (defines_of_stepPipeline h)

end State

/-! ## Whole sources -/

/-- However many tokens are read, the definitions have distinct names. -/
theorem nodup_names_of_run {defined : String → Bool} {s s' : State} {tokens : List PlacedToken}
    (h : run defined s tokens = .ok s') (hs : (s.defines.map Tree.name).Nodup) :
    (s'.defines.map Tree.name).Nodup := by
  refine foldlM_invariant (fun _ (s : State) => (s.defines.map Tree.name).Nodup) ?_
    hs h
  intro _ t s s' hnodup hstep
  rcases State.definesGrow_of_step hstep with hkept | ⟨tree, pos, hadded⟩
  · rwa [hkept]
  · exact nodup_names_of_addDefine hadded hnodup

/-- What tokens that are parsed amount to: the state in which they leave the parser. -/
theorem parseTokens_eq_ok {defined : String → Bool} {name : String} {tokens : List PlacedToken}
    {parsed : ParsedSource} (h : parseTokens defined name tokens = .ok parsed) :
    ∃ s, run defined State.initial tokens = .ok s ∧ s.mode = .outside ∧ s.opened = []
      ∧ parsed = ⟨⟨name, s.nodes⟩, s.defines⟩ := by
  obtain ⟨s, hrun, hfinish⟩ := monad_bind_eq_ok.1 h
  refine ⟨s, hrun, ?_⟩
  unfold State.finish at hfinish
  split at hfinish
  · exact absurd hfinish (by simp)
  · rename_i hmode
    split at hfinish
    · exact absurd hfinish (by simp)
    · rename_i hopened
      refine ⟨?_, hopened, (Except.ok.inj hfinish).symm⟩
      cases hm : s.mode with
      | outside => rfl
      | opened | afterElse | closing | namingDefine | naming | named | pipeline =>
        rw [hm] at hmode
        exact absurd hmode (by simp [Mode.construct?])

/-- A source is parsed exactly if it has tokens and these are parsed. -/
theorem parse_eq_ok_iff_tokens {defined : String → Bool} {name source : String}
    {parsed : ParsedSource} :
    parse defined name source = .ok parsed
      ↔ ∃ tokens, tokensOf source = .ok tokens ∧ parseTokens defined name tokens = .ok parsed := by
  unfold parse
  cases tokensOf source with
  | error e => simp
  | ok tokens => simp

/-- What a source that is parsed amounts to: the state in which its tokens leave the parser. -/
theorem parse_eq_ok {defined : String → Bool} {name source : String} {parsed : ParsedSource}
    (h : parse defined name source = .ok parsed) :
    ∃ tokens s, tokensOf source = .ok tokens ∧ run defined State.initial tokens = .ok s
      ∧ s.mode = .outside ∧ s.opened = [] ∧ parsed = ⟨⟨name, s.nodes⟩, s.defines⟩ := by
  obtain ⟨tokens, htokens, hparsed⟩ := parse_eq_ok_iff_tokens.1 h
  obtain ⟨s, hrun, hmode, hopened, hparts⟩ := parseTokens_eq_ok hparsed
  exact ⟨tokens, s, htokens, hrun, hmode, hopened, hparts⟩

/-- The main tree of a source has the name under which the source was parsed. -/
theorem main_name_of_parse {defined : String → Bool} {name source : String}
    {parsed : ParsedSource} (h : parse defined name source = .ok parsed) :
    parsed.main.name = name := by
  obtain ⟨_, s, _, _, _, _, hparsed⟩ := parse_eq_ok h
  rw [hparsed]

/-- A source defines every name at most once. -/
theorem nodup_names_of_parse {defined : String → Bool} {name source : String}
    {parsed : ParsedSource} (h : parse defined name source = .ok parsed) :
    (parsed.defines.map Tree.name).Nodup := by
  obtain ⟨_, s, _, hrun, _, _, hparsed⟩ := parse_eq_ok h
  have hs : (s.defines.map Tree.name).Nodup := nodup_names_of_run hrun List.nodup_nil
  rwa [hparsed]

end Stencil.Parser
