/-
Lexer and parser stay in step.

The tokens of a source are texts and whole actions: what opens an action is closed before the next text
or action begins. The parser is inside an action from the one delimiter to the other, whatever it is
reading there, and every construct that it knows ends an action with the closing delimiter. So it
never meets a stray token outside actions and never reaches the end of the tokens inside one. What is
shown of a step inside an action holds for any token, and only the run makes use of the brackets.
-/
import Stencil.Proofs.GrammarReading
import Stencil.Proofs.Trimming

set_option autoImplicit false

namespace Stencil

open Segments

/-! ## Tokens -/

/-- Says that tokens are texts that are not empty and whole actions, one after the other. -/
inductive Bracketed : List PlacedToken → Prop where
  | nil : Bracketed []
  | text {s : String} {pos : Position} {ts : List PlacedToken} :
      s ≠ "" → Bracketed ts → Bracketed (⟨.text s, pos⟩ :: ts)
  | action {start close : Position} {within ts : List PlacedToken} :
      (∀ t ∈ within, t.token.isInside = true) → Bracketed ts →
      Bracketed (Grammar.action start within close ++ ts)

theorem RawText.tokens_cases (r : RawText) (trimsStart trimsEnd : Bool) :
    r.tokens trimsStart trimsEnd = [] ∨
    ∃ s pos, s ≠ "" ∧ r.tokens trimsStart trimsEnd = [⟨.text s, pos⟩] := by
  unfold RawText.tokens
  simp only
  generalize (if trimsEnd then Text.trimEnd _ else _) = kept
  cases kept with
  | nil => exact Or.inl rfl
  | cons c kept => exact Or.inr ⟨String.ofList (c :: kept), _, by simp, rfl⟩

namespace Bracketed

theorem text_append (r : RawText) (trimsStart trimsEnd : Bool) {ts : List PlacedToken}
    (h : Bracketed ts) : Bracketed (r.tokens trimsStart trimsEnd ++ ts) := by
  rcases r.tokens_cases trimsStart trimsEnd with hnone | ⟨s, pos, hs, hone⟩
  · rwa [hnone]
  · rw [hone]
    exact .text hs h

/-- The tokens of an action or a comment stand in brackets, or there are none. -/
theorem action_append {a : ActionText} (ha : a.IsRead) {us ts : List PlacedToken}
    (hus : us.map PlacedToken.token = a.tokens) (h : Bracketed ts) : Bracketed (us ++ ts) := by
  rcases (a.isRead_iff.1 ha).tokens with hnil | ⟨inner, htokens, hinner⟩
  · rw [hnil, List.map_eq_nil_iff] at hus
    rwa [hus]
  · rw [htokens, List.cons_append] at hus
    obtain ⟨opening, rest, rfl, hopening, hrest⟩ := List.map_eq_cons_iff.1 hus
    obtain ⟨within, last, rfl, hwithin, hlast⟩ := List.map_eq_append_iff.1 hrest
    obtain ⟨closing, rfl, hclosing⟩ := List.map_eq_singleton_iff.1 hlast
    obtain ⟨_, start⟩ := opening
    obtain ⟨_, close⟩ := closing
    obtain rfl : _ = Token.actionStart := hopening
    obtain rfl : _ = Token.actionEnd := hclosing
    have hinside : ∀ t ∈ within, t.token.isInside = true := by
      intro t ht
      apply hinner
      rw [← hwithin]
      exact List.mem_map_of_mem ht
    have haction : Bracketed (Grammar.action start within close ++ ts) := .action hinside h
    rwa [Grammar.action, List.cons_append, List.cons_append] at haction

theorem of_matches {read : List (Action × RawText)} {others : List (ActionText × List Char)}
    (h : List.Forall₂ Split.Matches read others) (hothers : ∀ a ∈ others.map Prod.fst, a.IsRead) :
    ∀ (trims : Bool) (r : RawText), Bracketed (tokensFrom trims r read) := by
  induction h with
  | nil =>
    intro trims r
    have hall := text_append r trims false .nil
    rwa [List.append_nil] at hall
  | @cons p given _ _ hp _ ih =>
    intro trims r
    obtain ⟨a, text⟩ := p
    have hmore := ih (fun b hb => hothers b (List.mem_cons_of_mem _ hb)) a.trimsAfter text
    rw [tokensFrom, List.append_assoc]
    exact text_append r trims _ (action_append (hothers given.1 List.mem_cons_self) hp.tokens hmore)

end Bracketed

/-- The tokens of a source are in brackets. -/
theorem bracketed_of_tokensOf {source : String} {ts : List PlacedToken}
    (h : tokensOf source = .ok ts) : Bracketed ts := by
  obtain ⟨s, hproper, rfl⟩ := Split.exists_proper_of_tokensOf h
  obtain ⟨segments, hsegments, -, hmatches⟩ := Split.segmentsFrom_of_proper hproper .start
  have hscanned : ofSource (String.ofList s.chars) = .ok segments := by
    rw [ofSource, String.toList_ofList]
    exact hsegments
  rw [tokensOf, hscanned] at h
  rw [← Except.ok.inj h]
  exact .of_matches hmatches (Split.isRead_of_properFrom hproper) false segments.first

/-! ## What can go wrong inside an action -/

/-- Whether a failure is one inside an action: none of the lexer, none of a token outside actions, and
no missing end. -/
def ParseCause.isOfAction : ParseCause → Bool
  | .lex _ => false
  | .strayToken _ => false
  | .unexpectedEof _ => false
  | _ => true

/-- Says that a part of the parser gives something `good`, or fails as actions can. -/
def InAction {α : Type} (good : α → Prop) : Except ParseError α → Prop
  | .ok a => good a
  | .error e => e.cause.isOfAction = true

/-- Whether a pipeline has come to its end. -/
def PipelineProgress.isDone : PipelineProgress → Bool
  | .reading _ _ => false
  | .done _ => true

namespace InAction

variable {α β : Type}

theorem bind {good : α → Prop} {good' : β → Prop} {x : Except ParseError α}
    {f : α → Except ParseError β} (hx : InAction good x) (hf : ∀ a, good a → InAction good' (f a)) :
    InAction good' (x >>= f) := by
  cases x with
  | error e => exact hx
  | ok a => exact hf a hx

theorem mono {good good' : α → Prop} {x : Except ParseError α} (hx : InAction good x)
    (h : ∀ a, good a → good' a) : InAction good' x := by
  cases x with
  | error e => exact hx
  | ok a => exact h a hx

theorem endCommand (l : Level) (pos : Position) : InAction (fun _ => True) (l.endCommand pos) := by
  unfold Level.endCommand
  split
  · exact rfl
  · exact trivial

theorem finish (l : Level) (pos : Position) : InAction (fun _ => True) (l.finish pos) :=
  (endCommand l pos).bind fun _ _ => trivial

/-- The closing delimiter ends a pipeline, and nothing else does. -/
theorem progress {defined : String → Bool} (outer : List Level) (inner : Level) (t : PlacedToken) :
    InAction (fun p => t.token = .actionEnd ↔ p.isDone = true)
      (PipelineProgress.step defined outer inner t) := by
  -- A token other than the closing delimiter leaves the pipeline open.
  have hreading : ∀ outer inner, t.token ≠ .actionEnd →
      (t.token = .actionEnd ↔ (PipelineProgress.reading outer inner).isDone = true) :=
    fun _ _ h => ⟨fun heq => absurd heq h, fun h => absurd h Bool.false_ne_true⟩
  unfold PipelineProgress.step
  split
  · rename_i heq
    exact (endCommand inner _).bind fun _ _ => hreading _ _ (by rw [heq]; simp)
  · -- The closing delimiter: the outermost pipeline is done, one in parentheses cannot be.
    rename_i heq
    refine (finish inner _).bind fun finished _ => ?_
    cases outer with
    | nil => exact ⟨fun _ => rfl, fun _ => heq⟩
    | cons _ _ => exact rfl
  · -- A closing parenthesis: the other way round.
    rename_i heq
    refine (finish inner _).bind fun finished _ => ?_
    cases outer with
    | nil => exact rfl
    | cons _ _ => exact hreading _ _ (by rw [heq]; simp)
  · rename_i heq
    exact hreading _ _ (by rw [heq]; simp)
  · rename_i name heq
    split
    · exact hreading _ _ (by rw [heq]; simp)
    · exact rfl
  · rename_i hend _ _ _
    split
    · exact hreading _ _ hend
    · exact rfl

end InAction

/-! ## States -/

namespace Parser.State

variable {s : State}

theorem inAction_define (s : State) (pos : Position) (name : String) :
    InAction (fun _ => True) (s.define pos name) := by
  have hadd : ∀ (tree : Tree) (ts : List Tree), InAction (fun _ => True) (addDefine tree pos ts) := by
    intro tree ts
    induction ts with
    | nil => exact trivial
    | cons t rest ih =>
      unfold addDefine
      split
      · split
        · exact trivial
        · split
          · exact trivial
          · exact rfl
      · exact ih.bind fun _ _ => trivial
  exact (hadd _ _).bind fun _ _ => trivial

theorem inAction_endClause (s : State) (pos : Position) :
    InAction (·.mode = .outside) (s.endClause pos) := by
  unfold endClause
  split
  · exact rfl
  · rename_i frame before outer _
    cases frame with
    | branch | elseOfBranches | rebind | elseOfRebind => exact rfl
    | define start name => exact (s.inAction_define start name).bind fun _ _ => rfl
    | block start name _ => exact (s.inAction_define start name).bind fun _ _ => rfl

theorem inAction_elseClause (s : State) (pos : Position) :
    InAction (·.mode = .outside) (s.elseClause pos) := by
  unfold elseClause
  split
  · exact rfl
  · rename_i frame before outer _
    cases frame with
    | branch | rebind => exact rfl
    | elseOfBranches | elseOfRebind | define | block => exact rfl

theorem inAction_elseIf (s : State) (pos : Position) (condition : Pipeline) :
    InAction (·.mode = .outside) (s.elseIf pos condition) := by
  unfold elseIf
  split
  · exact rfl
  · rename_i frame before outer _
    cases frame with
    | branch => exact rfl
    | elseOfBranches | rebind | elseOfRebind | define | block => exact rfl

theorem mode_finishNamed (s : State) (kind : Named) (pos : Position) (name : String)
    (p : Option Pipeline) : (s.finishNamed kind pos name p).mode = .outside := by
  cases kind with
  | call => rfl
  | block => rfl

theorem inAction_finishPipeline (s : State) (p : Pipeline) (purpose : Purpose) :
    InAction (·.mode = .outside) (s.finishPipeline p purpose) := by
  cases purpose with
  | output | condition | rebind => exact rfl
  | elseIf pos => exact s.inAction_elseIf pos p
  | named kind pos name => exact s.mode_finishNamed kind pos name (some p)

/-- The step of a pipeline leads out of the action with the closing delimiter only. -/
theorem inAction_stepPipeline {defined : String → Bool} (s : State) (purpose : Purpose)
    (outer : List Level) (inner : Level) (t : PlacedToken) :
    InAction (fun s' => t.token = .actionEnd ↔ s'.mode = .outside)
      (s.stepPipeline defined purpose outer inner t) := by
  refine (InAction.progress outer inner t).bind fun progress hprogress => ?_
  cases progress with
  | reading outer inner =>
    exact ⟨fun h => absurd (hprogress.1 h) Bool.false_ne_true, fun h => by cases h⟩
  | done p =>
    have hend := hprogress.2 rfl
    apply (s.inAction_finishPipeline p purpose).mono
    intro s' hs'
    exact ⟨fun _ => hs', fun _ => hend⟩

theorem inAction_stepKeyword (s : State) (pos : Position) (k : Keyword) :
    InAction (·.mode ≠ .outside) (s.stepKeyword pos k) := by
  cases k with
  | defineWord =>
    unfold stepKeyword
    dsimp only
    split
    · exact fun h => by cases h
    · exact rfl
  | endWord | elseWord | ifWord | rangeWord | withWord | blockWord | templateWord =>
    exact fun h => by cases h

theorem inAction_stepClosing (s : State) (pos : Position) (what : Closing) (t : PlacedToken) :
    InAction (fun s' => t.token = .actionEnd ↔ s'.mode = .outside) (s.stepClosing pos what t) := by
  unfold stepClosing
  split
  · rename_i heq
    have hfinish : InAction (·.mode = .outside) (s.finishClosing pos what) := by
      cases what with
      | endClause => exact s.inAction_endClause pos
      | elseClause => exact s.inAction_elseClause pos
      | define => exact rfl
    apply hfinish.mono
    intro s' hs'
    exact ⟨fun _ => hs', fun _ => heq⟩
  · exact rfl

/-- **Inside an action, the closing delimiter leads out of it and no other token does.** -/
theorem inAction_step {defined : String → Bool} (t : PlacedToken) (h : s.mode ≠ .outside) :
    InAction (fun s' => t.token = .actionEnd ↔ s'.mode = .outside) (s.step defined t) := by
  -- A token other than the closing delimiter leaves the parser inside.
  have hinside : ∀ s' : State, t.token ≠ .actionEnd → s'.mode ≠ .outside →
      (t.token = .actionEnd ↔ s'.mode = .outside) :=
    fun _ ht hs' => ⟨fun heq => absurd heq ht, fun heq => absurd heq hs'⟩
  unfold step
  cases hs : s.mode with
  | outside => exact absurd hs h
  | opened pos =>
    dsimp only
    split
    · -- No keyword makes a whole action by itself, not even `end`.
      rename_i k heq
      apply (s.inAction_stepKeyword pos k).mono
      intro s' hs'
      exact hinside s' (by rw [heq]; simp) hs'
    · exact s.inAction_stepPipeline _ _ _ t
  | afterElse pos =>
    dsimp only
    split
    · -- An `else if` waits for its condition.
      rename_i heq
      exact hinside _ (by rw [heq]; simp) fun h => by cases h
    · exact s.inAction_stepClosing _ _ t
  | closing pos what => exact s.inAction_stepClosing _ _ t
  | namingDefine =>
    dsimp only
    split
    · rename_i heq
      exact hinside _ (by rw [heq]; simp) fun h => by cases h
    · exact rfl
  | naming kind pos =>
    dsimp only
    split
    · rename_i heq
      exact hinside _ (by rw [heq]; simp) fun h => by cases h
    · exact rfl
  | named kind pos name =>
    dsimp only
    split
    · -- Without an argument the action ends right behind the name.
      rename_i heq
      exact ⟨fun _ => s.mode_finishNamed kind pos name none, fun _ => heq⟩
    · exact s.inAction_stepPipeline _ _ _ t
  | pipeline purpose outer inner => exact s.inAction_stepPipeline _ _ _ t

end Parser.State

/-! ## Runs -/

namespace Parser

variable {defined : String → Bool}

theorem inAction_run_append {good good' : State → Prop} {s : State} {ts us : List PlacedToken}
    (hts : InAction good (run defined s ts))
    (hus : ∀ s', good s' → InAction good' (run defined s' us)) :
    InAction good' (run defined s (ts ++ us)) := by
  unfold run at hts hus ⊢
  rw [List.foldlM_append]
  exact hts.bind hus

/-- Up to its end, an action is not left. -/
theorem inAction_run_within {within : List PlacedToken} (h : ∀ t ∈ within, t.token.isInside = true) :
    ∀ {s : State}, s.mode ≠ .outside → InAction (·.mode ≠ .outside) (run defined s within) := by
  induction within with
  | nil => exact fun hs => hs
  | cons t within ih =>
    intro s hs
    have hinside : t.token ≠ .actionEnd := by
      intro heq
      have ht := h t List.mem_cons_self
      rw [heq] at ht
      exact Bool.false_ne_true ht
    rw [run, List.foldlM_cons]
    refine (s.inAction_step t hs).bind fun s' hs' => ?_
    exact ih (fun u hu => h u (List.mem_cons_of_mem t hu)) fun hout => hinside (hs'.2 hout)

/-- **Tokens in brackets are read from text to text.** A run over them fails as actions can or comes
back outside. The induction is on the brackets. -/
theorem inAction_run {ts : List PlacedToken} (h : Bracketed ts) :
    ∀ {s : State}, s.mode = .outside → InAction (·.mode = .outside) (run defined s ts) := by
  induction h with
  | nil => exact fun hs => hs
  | @text text pos ts _ _ ih =>
    intro s hs
    have hstep : s.step defined ⟨.text text, pos⟩ = .ok (s.push (.text text)) := by
      unfold State.step
      rw [hs]
    rw [run_cons hstep]
    exact ih rfl
  | @action start close within ts hwithin _ ih =>
    intro s hs
    have hstep : s.step defined ⟨.actionStart, start⟩ = .ok { s with mode := .opened start } := by
      unfold State.step
      rw [hs]
    rw [Grammar.action, List.cons_append, List.cons_append, run_cons hstep, List.append_assoc]
    refine inAction_run_append (inAction_run_within hwithin fun h => by cases h) fun s₁ hs₁ => ?_
    have hend : InAction (·.mode = .outside) (run defined s₁ [⟨.actionEnd, close⟩]) := by
      rw [run_singleton]
      exact (s₁.inAction_step ⟨.actionEnd, close⟩ hs₁).mono fun _ hs₂ => hs₂.1 rfl
    exact inAction_run_append hend fun s₂ hs₂ => ih hs₂

/-- The constructs that a source can leave open. -/
theorem construct_mem (frame : Frame) :
    frame.construct ∈ [Construct.ifClause, .rebind .range, .rebind .scoped, .define, .block] := by
  cases frame with
  | branch | elseOfBranches | define | block => simp [Frame.construct]
  | rebind kind | elseOfRebind kind => cases kind <;> simp [Frame.construct]

/-- What can be wrong with a source that has tokens: something inside an action, or a construct that is
open at the end, outside every action. -/
theorem error_of_parse {name source : String} {ts : List PlacedToken} {e : ParseError}
    (hts : tokensOf source = .ok ts) (h : parse defined name source = .error e) :
    e.cause.isOfAction = true ∨
    ∃ s o outer, run defined State.initial ts = .ok s ∧ s.mode = .outside ∧ s.opened = o :: outer
      ∧ e = ⟨.unexpectedEof o.frame.construct, o.frame.eofPosition (lastPosition ts)⟩ := by
  have hrun : InAction (·.mode = .outside) (run defined State.initial ts) :=
    inAction_run (bracketed_of_tokensOf hts) rfl
  unfold parse at h
  rw [hts] at h
  rcases Runs.monad_bind_eq_error.1 h with hfail | ⟨s, hs, hfinish⟩
  · rw [hfail] at hrun
    exact Or.inl hrun
  · rw [hs] at hrun
    have hmode : s.mode = .outside := hrun
    unfold State.finish at hfinish
    rw [hmode] at hfinish
    simp only [Mode.construct?] at hfinish
    split at hfinish
    · rename_i o outer hopened
      exact Or.inr ⟨s, o, outer, hs, hmode, hopened, (Except.error.inj hfinish).symm⟩
    · exact absurd hfinish (by simp)

end Parser

end Stencil
