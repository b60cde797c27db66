/-
Where failures to parse are reported.

A failure may be reported at the token that caused it, but also where the action or the construct
around it began, and the parser keeps such places for long: in its frames, in what it is reading a
pipeline for, in the levels of parentheses. The argument does not follow them one by one. Whatever
holds of the places of all tokens holds of every place that a state keeps, since a step only copies
places; so it holds of the place that a failure names, wherever that comes from.
-/
import Stencil.Proofs.Tiling

set_option autoImplicit false

namespace Stencil

variable {α β : Type} {P : Position → Prop}

/-- Says that a part of the parser gives something `good`, or fails at a place with the property. -/
def Outcome (P : Position → Prop) (good : α → Prop) : Except ParseError α → Prop
  | .ok a => good a
  | .error e => P e.pos

theorem Outcome.bind {good : α → Prop} {good' : β → Prop} {x : Except ParseError α}
    {f : α → Except ParseError β} (hx : Outcome P good x)
    (hf : ∀ a, good a → Outcome P good' (f a)) : Outcome P good' (x >>= f) := by
  cases x with
  | error e => exact hx
  | ok a => exact hf a hx

/-! ## Pipelines -/

/-- Says that the place where the command being read began, if it has begun, has the property. -/
def Level.Within (P : Position → Prop) (l : Level) : Prop :=
  ∀ p, l.commandStart = some p → P p

namespace Level

theorem within_opened (construct : Construct) : (Level.opened construct).Within P :=
  fun _ h => absurd h (by simp [opened])

theorem Within.getD {l : Level} {pos : Position} (h : l.Within P) (hpos : P pos) :
    P (l.commandStart.getD pos) := by
  cases hstart : l.commandStart with
  | none => exact hpos
  | some p => exact h p hstart

theorem Within.reach {l : Level} {pos : Position} (h : l.Within P) (hpos : P pos) :
    (l.reach pos).Within P := by
  intro p hp
  rw [← Option.some.inj hp]
  exact h.getD hpos

theorem Within.add {l : Level} {pos : Position} (h : l.Within P) (hpos : P pos)
    (operand : Operand) : (l.add pos operand).Within P :=
  h.reach hpos

theorem Within.endCommand {l : Level} {pos : Position} (h : l.Within P) (hpos : P pos) :
    Outcome P (Level.Within P) (l.endCommand pos) := by
  unfold Level.endCommand
  by_cases hargs : l.args.isEmpty = true
  · rw [if_pos hargs]
    exact h.getD hpos
  · rw [if_neg hargs]
    intro p hp
    exact absurd hp (by simp)

theorem Within.finish {l : Level} {pos : Position} (h : l.Within P) (hpos : P pos) :
    Outcome P (fun _ => True) (l.finish pos) :=
  (h.endCommand hpos).bind fun _ _ => trivial

end Level

/-- Says that the commands of all open pipelines began at places with the property. -/
def PipelineProgress.Within (P : Position → Prop) : PipelineProgress → Prop
  | .reading outer inner => ∀ l ∈ inner :: outer, l.Within P
  | .done _ => True

theorem PipelineProgress.within_step {defined : String → Bool} {outer : List Level} {inner : Level}
    {t : PlacedToken} (h : ∀ l ∈ inner :: outer, l.Within P) (ht : P t.pos) :
    Outcome P (PipelineProgress.Within P) (PipelineProgress.step defined outer inner t) := by
  obtain ⟨hinner, houter⟩ := List.forall_mem_cons.1 h
  unfold PipelineProgress.step
  split
  · refine (hinner.endCommand ht).bind fun ended hended => ?_
    exact List.forall_mem_cons.2 ⟨hended, houter⟩
  · refine (hinner.finish ht).bind fun _ _ => ?_
    cases outer with
    | nil => exact trivial
    | cons _ _ => exact ht
  · refine (hinner.finish ht).bind fun finished _ => ?_
    cases outer with
    | nil => exact ht
    | cons next more =>
      obtain ⟨hnext, hmore⟩ := List.forall_mem_cons.1 houter
      exact List.forall_mem_cons.2 ⟨hnext.add ht _, hmore⟩
  · exact List.forall_mem_cons.2
      ⟨Level.within_opened _, List.forall_mem_cons.2 ⟨hinner.reach ht, houter⟩⟩
  · split
    · exact List.forall_mem_cons.2 ⟨hinner.add ht _, houter⟩
    · exact ht
  · split
    · exact List.forall_mem_cons.2 ⟨hinner.add ht _, houter⟩
    · exact ht

namespace Parser

/-! ## States -/

/-- The place where the construct of a frame began. -/
def Frame.place : Frame → Position
  | .branch pos _ _ => pos
  | .elseOfBranches pos _ => pos
  | .rebind _ pos _ => pos
  | .elseOfRebind _ pos _ _ => pos
  | .define pos _ => pos
  | .block pos _ _ => pos

/-- Says that the place kept with the purpose of a pipeline has the property. -/
def Purpose.Within (P : Position → Prop) : Purpose → Prop
  | .output => True
  | .condition pos => P pos
  | .elseIf pos => P pos
  | .rebind _ pos => P pos
  | .named _ pos _ => P pos

/-- Says that the place of a definition that is to begin has the property. -/
def Closing.Within (P : Position → Prop) : Closing → Prop
  | .endClause => True
  | .elseClause => True
  | .define pos _ => P pos

/-- Says that the places kept of an action have the property. -/
def Mode.Within (P : Position → Prop) : Mode → Prop
  | .outside => True
  | .opened pos => P pos
  | .afterElse pos => P pos
  | .closing pos what => P pos ∧ what.Within P
  | .namingDefine => True
  | .naming _ pos => P pos
  | .named _ pos _ => P pos
  | .pipeline purpose outer inner => purpose.Within P ∧ ∀ l ∈ inner :: outer, l.Within P

/-- Says that all places that a state keeps for messages have the property. -/
structure State.Within (P : Position → Prop) (s : State) : Prop where
  mode : s.mode.Within P
  opened : ∀ o ∈ s.opened, P o.frame.place

theorem State.within_initial : State.initial.Within P := ⟨trivial, by simp [State.initial]⟩

theorem within_addDefine {tree : Tree} {pos : Position} (hpos : P pos) (trees : List Tree) :
    Outcome P (fun _ => True) (addDefine tree pos trees) := by
  induction trees with
  | nil => exact trivial
  | cons t rest ih =>
    unfold addDefine
    split
    · split
      · exact trivial
      · split
        · exact trivial
        · exact hpos
    · exact ih.bind fun _ _ => trivial

/-- The place that a message about a missing end names is the last one or one that is kept. -/
theorem eofPosition_within {frame : Frame} {last : Position} (hframe : P frame.place)
    (hlast : P last) : P (frame.eofPosition last) := by
  cases frame with
  | branch | rebind => exact hframe
  | elseOfBranches | elseOfRebind | define | block => exact hlast

namespace State.Within

variable {s : State} {pos : Position}

theorem push (h : s.Within P) (n : Node) : (s.push n).Within P := ⟨trivial, h.opened⟩

theorem enter {frame : Frame} (h : s.Within P) (hframe : P frame.place) :
    (s.enter frame).Within P :=
  ⟨trivial, List.forall_mem_cons.2 ⟨hframe, h.opened⟩⟩

theorem endClause (h : s.Within P) (hpos : P pos) : Outcome P (State.Within P) (s.endClause pos) := by
  have hopened := h.opened
  unfold State.endClause
  split
  · exact hpos
  · rename_i frame before outer heq
    rw [heq] at hopened
    obtain ⟨hframe, houter⟩ := List.forall_mem_cons.1 hopened
    have hdefined : ∀ start name, P start → Outcome P (fun _ => True) (s.define start name) :=
      fun start name hstart => (within_addDefine hstart s.defines).bind fun _ _ => trivial
    cases frame with
    | branch | elseOfBranches | rebind | elseOfRebind => exact ⟨trivial, houter⟩
    | define start name => exact (hdefined start name hframe).bind fun _ _ => ⟨trivial, houter⟩
    | block start name _ => exact (hdefined start name hframe).bind fun _ _ => ⟨trivial, houter⟩

theorem elseClause (h : s.Within P) (hpos : P pos) :
    Outcome P (State.Within P) (s.elseClause pos) := by
  have hopened := h.opened
  unfold State.elseClause
  split
  · exact hpos
  · rename_i frame before outer heq
    rw [heq] at hopened
    cases frame with
    | branch | rebind => exact ⟨trivial, List.forall_mem_cons.2 (List.forall_mem_cons.1 hopened)⟩
    | elseOfBranches | elseOfRebind | define | block => exact hpos

theorem elseIf (h : s.Within P) (hpos : P pos) (condition : Pipeline) :
    Outcome P (State.Within P) (s.elseIf pos condition) := by
  have hopened := h.opened
  unfold State.elseIf
  split
  · exact hpos
  · rename_i frame before outer heq
    rw [heq] at hopened
    cases frame with
    | branch => exact ⟨trivial, List.forall_mem_cons.2 (List.forall_mem_cons.1 hopened)⟩
    | elseOfBranches | rebind | elseOfRebind | define | block => exact hpos

theorem finishNamed (h : s.Within P) (hpos : P pos) (kind : Named) (name : String)
    (p : Option Pipeline) : (s.finishNamed kind pos name p).Within P := by
  cases kind with
  | call => exact h.push _
  | block => exact h.enter hpos

theorem finishPipeline {purpose : Purpose} (h : s.Within P) (hpurpose : purpose.Within P)
    (p : Pipeline) : Outcome P (State.Within P) (s.finishPipeline p purpose) := by
  cases purpose with
  | output => exact h.push _
  | condition pos => exact h.enter hpurpose
  | elseIf pos => exact h.elseIf hpurpose p
  | rebind kind pos => exact h.enter hpurpose
  | named kind pos name => exact h.finishNamed hpurpose kind name (some p)

theorem stepPipeline {defined : String → Bool} {purpose : Purpose} {outer : List Level}
    {inner : Level} {t : PlacedToken} (h : s.Within P) (hpurpose : purpose.Within P)
    (hlevels : ∀ l ∈ inner :: outer, l.Within P) (ht : P t.pos) :
    Outcome P (State.Within P) (s.stepPipeline defined purpose outer inner t) := by
  refine (PipelineProgress.within_step hlevels ht).bind fun progress hprogress => ?_
  cases progress with
  | reading outer inner => exact ⟨⟨hpurpose, hprogress⟩, h.opened⟩
  | done p => exact h.finishPipeline hpurpose p

theorem within_levels_opened (construct : Construct) :
    ∀ l ∈ [Level.opened construct], l.Within P :=
  List.forall_mem_cons.2 ⟨Level.within_opened construct, by simp⟩

theorem awaitPipeline {purpose : Purpose} (h : s.Within P) (hpurpose : purpose.Within P) :
    (s.awaitPipeline purpose).Within P :=
  ⟨⟨hpurpose, within_levels_opened _⟩, h.opened⟩

theorem stepKeyword (h : s.Within P) (hpos : P pos) (k : Keyword) :
    Outcome P (State.Within P) (s.stepKeyword pos k) := by
  cases k with
  | endWord => exact ⟨⟨hpos, trivial⟩, h.opened⟩
  | elseWord | blockWord | templateWord => exact ⟨hpos, h.opened⟩
  | ifWord | rangeWord | withWord => exact h.awaitPipeline hpos
  | defineWord =>
    unfold State.stepKeyword
    dsimp only
    split
    · exact ⟨trivial, h.opened⟩
    · exact hpos

theorem stepClosing {what : Closing} {t : PlacedToken} (h : s.Within P) (hpos : P pos)
    (hwhat : what.Within P) (ht : P t.pos) :
    Outcome P (State.Within P) (s.stepClosing pos what t) := by
  unfold State.stepClosing
  split
  · cases what with
    | endClause => exact h.endClause hpos
    | elseClause => exact h.elseClause hpos
    | define start name => exact h.enter hwhat
  · exact ht

/-- Places that a state keeps come from the tokens read, and so do the places of failures. -/
theorem step {defined : String → Bool} {t : PlacedToken} (h : s.Within P) (ht : P t.pos) :
    Outcome P (State.Within P) (s.step defined t) := by
  have hmode := h.mode
  have hbegin : ∀ purpose : Purpose, purpose.Within P →
      Outcome P (State.Within P) (s.beginPipeline defined purpose t) :=
    fun purpose hpurpose => h.stepPipeline hpurpose (within_levels_opened _) ht
  unfold State.step
  cases hs : s.mode with
  | outside =>
    dsimp only
    split
    · exact h.push _
    · exact ⟨ht, h.opened⟩
    · exact ht
  | opened pos =>
    rw [hs] at hmode
    dsimp only
    split
    · exact h.stepKeyword hmode _
    · exact hbegin .output trivial
  | afterElse pos =>
    rw [hs] at hmode
    dsimp only
    split
    · exact h.awaitPipeline hmode
    · exact h.stepClosing hmode trivial ht
  | closing pos what =>
    rw [hs] at hmode
    exact h.stepClosing hmode.1 hmode.2 ht
  | namingDefine =>
    dsimp only
    split
    · exact ⟨⟨ht, ht⟩, h.opened⟩
    · exact ht
  | naming kind pos =>
    rw [hs] at hmode
    dsimp only
    split
    · exact ⟨hmode, h.opened⟩
    · exact ht
  | named kind pos name =>
    rw [hs] at hmode
    dsimp only
    split
    · exact h.finishNamed hmode kind name none
    · exact hbegin (.named kind pos name) hmode
  | pipeline purpose outer inner =>
    rw [hs] at hmode
    exact h.stepPipeline hmode.1 hmode.2 ht

/-- A run over tokens keeps to their places. The induction is on the tokens that are left. -/
theorem run {defined : String → Bool} {ts : List PlacedToken} (h : s.Within P)
    (hts : ∀ t ∈ ts, P t.pos) : Outcome P (State.Within P) (Parser.run defined s ts) := by
  induction ts generalizing s with
  | nil => exact h
  | cons t ts ih =>
    obtain ⟨ht, hts⟩ := List.forall_mem_cons.1 hts
    rw [Parser.run, List.foldlM_cons]
    exact (h.step ht).bind fun _ hnext => ih hnext hts

theorem finish {last : Position} (h : s.Within P) (hlast : P last) (name : String) :
    Outcome P (fun _ => True) (s.finish name last) := by
  have hopened := h.opened
  unfold State.finish
  split
  · exact hlast
  · split
    · rename_i heq
      rw [heq] at hopened
      exact eofPosition_within (List.forall_mem_cons.1 hopened).1 hlast
    · exact trivial

end State.Within

/-! ## Whole sources -/

/-- What holds of the places of tokens holds of the place of a failure to parse them. -/
theorem within_parseTokens {defined : String → Bool} {name : String} {ts : List PlacedToken}
    (hts : ∀ t ∈ ts, P t.pos) : Outcome P (fun _ => True) (parseTokens defined name ts) := by
  cases hlast : ts.getLast? with
  | none =>
    rw [List.getLast?_eq_none_iff.1 hlast, parseTokens_nil]
    exact trivial
  | some t =>
    have hpos : P (lastPosition ts) := by
      rw [lastPosition, hlast]
      exact hts t (List.mem_of_getLast? hlast)
    exact (State.within_initial.run hts).bind fun _ hs => hs.finish hpos name

/-- A source that cannot be parsed is refused at one of its places. -/
theorem isIn_of_parse {defined : String → Bool} {name source : String} {e : ParseError}
    (h : parse defined name source = .error e) : e.pos.IsIn source.toList := by
  unfold parse at h
  cases htokens : tokensOf source with
  | error e' =>
    rw [htokens] at h
    rw [← Except.error.inj h]
    exact isIn_of_tokensOf htokens
  | ok ts =>
    rw [htokens] at h
    have hplaces : ∀ t ∈ ts, t.pos.IsIn source.toList := by
      intro t ht
      obtain ⟨front, w, after, hsplit, _, hpos⟩ := (tiled_of_tokensOf htokens).split_of_mem ht
      refine ⟨front, ⟨w ++ after, by rw [hsplit, List.append_assoc]⟩, hpos⟩
    have houtcome : Outcome (fun p => p.IsIn source.toList) (fun _ => True)
        (parseTokens defined name ts) := within_parseTokens hplaces
    rw [show parseTokens defined name ts = .error e from h] at houtcome
    exact houtcome

/-- **The tokens of a source account for all of it, and what is said about places is true.** If a
source has tokens, they and what is passed over make it up in order, each token stands at the place
that it names, and places increase strictly. If it has none, or if it cannot be parsed, the failure
names a place of the source. -/
theorem source_accounted_for (source : String) :
    (∀ ts, tokensOf source = .ok ts →
      Tiled [] source.toList ts ∧
      (∀ t ∈ ts, ∃ front w after, source.toList = front ++ w ++ after ∧ t.token.WrittenAs w ∧
        t.pos = Position.behind front) ∧
      ts.Pairwise fun t u => t.pos.Precedes u.pos) ∧
    (∀ e, tokensOf source = .error e →
      e.pos.IsIn source.toList ∧ 0 < e.pos.line ∧ 0 < e.pos.column) ∧
    ∀ (defined : String → Bool) (name : String) (e : ParseError),
      parse defined name source = .error e →
      e.pos.IsIn source.toList ∧ 0 < e.pos.line ∧ 0 < e.pos.column := by
  refine ⟨fun ts hts => ?_, fun e he => ?_, fun defined name e he => ?_⟩
  · have htiled := tiled_of_tokensOf hts
    exact ⟨htiled, fun t ht => htiled.split_of_mem ht, htiled.pairwise_precedes⟩
  · have hplace := isIn_of_tokensOf he
    exact ⟨hplace, hplace.positive⟩
  · have hplace := isIn_of_parse he
    exact ⟨hplace, hplace.positive⟩

/-- A source with trimmed texts and a comment, one with an unknown character in an action, and one that
ends inside a construct. -/
theorem source_accounted_for_examples :
    (∃ ts, tokensOf "a \x7b\x7b- .x -\x7d\x7d\n\x7b\x7b/* c\n */\x7d\x7d b" = .ok ts ∧
      ts.map PlacedToken.pos = [⟨1, 1⟩, ⟨1, 3⟩, ⟨1, 7⟩, ⟨1, 10⟩, ⟨3, 6⟩] ∧
      Tiled [] "a \x7b\x7b- .x -\x7d\x7d\n\x7b\x7b/* c\n */\x7d\x7d b".toList ts) ∧
    (∃ e, tokensOf "a\n\x7b\x7b ! \x7d\x7d" = .error e ∧ e.pos = ⟨2, 4⟩ ∧
      e.pos.IsIn "a\n\x7b\x7b ! \x7d\x7d".toList) ∧
    ∃ e, parse (fun _ => false) "page" "a\n\x7b\x7bif .x\x7d\x7db" = .error e ∧ e.pos = ⟨2, 1⟩ ∧
      e.pos.IsIn "a\n\x7b\x7bif .x\x7d\x7db".toList := by
  refine ⟨?_, ?_, ?_⟩
  · have hplaces : (tokensOf "a \x7b\x7b- .x -\x7d\x7d\n\x7b\x7b/* c\n */\x7d\x7d b").toOption.map
        (fun ts => ts.map PlacedToken.pos) = some [⟨1, 1⟩, ⟨1, 3⟩, ⟨1, 7⟩, ⟨1, 10⟩, ⟨3, 6⟩] := by
      decide +kernel
    obtain ⟨ts, hts, hpos⟩ := Option.map_eq_some_iff.1 hplaces
    rw [Runs.toOption_eq_some] at hts
    exact ⟨ts, hts, hpos, ((source_accounted_for _).1 ts hts).1⟩
  · have hplace : (Runs.error? (tokensOf "a\n\x7b\x7b ! \x7d\x7d")).map LexError.pos
        = some ⟨2, 4⟩ := by
      decide +kernel
    obtain ⟨e, he, hpos⟩ := Option.map_eq_some_iff.1 hplace
    rw [Runs.error?_eq_some] at he
    exact ⟨e, he, hpos, ((source_accounted_for _).2.1 e he).1⟩
  · have hplace : (Runs.error? (parse (fun _ => false) "page" "a\n\x7b\x7bif .x\x7d\x7db")).map
        ParseError.pos = some ⟨2, 1⟩ := by
      decide +kernel
    obtain ⟨e, he, hpos⟩ := Option.map_eq_some_iff.1 hplace
    rw [Runs.error?_eq_some] at he
    exact ⟨e, he, hpos, ((source_accounted_for _).2.2 _ _ e he).1⟩

end Parser

end Stencil
