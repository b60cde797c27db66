/-
A pipeline is read back from its tokens.

Where tokens lead does not depend on where they stand, up to the positions in what is read. So a
statement about reading is one about tokens without positions and about every way to place them, and
such statements compose: what leads to a state from where more tokens lead on leads there with them.
-/
import Stencil.Proofs.Printing
import Stencil.Proofs.Runs

set_option autoImplicit false

namespace Stencil

/-! ## Positions forgotten in lists -/

theorem Operand.unplacedAll_append (as bs : List Operand) :
    Operand.unplacedAll (as ++ bs) = Operand.unplacedAll as ++ Operand.unplacedAll bs := by
  induction as with
  | nil => rfl
  | cons a as ih =>
    rw [List.cons_append, Operand.unplacedAll, Operand.unplacedAll, ih, List.cons_append]

theorem Operand.unplacedAll_eq_nil {os : List Operand} (h : Operand.unplacedAll os = []) :
    os = [] := by
  cases os with
  | nil => rfl
  | cons o rest => exact absurd h (List.cons_ne_nil _ _)

theorem Command.unplacedAll_append (as bs : List Command) :
    Command.unplacedAll (as ++ bs) = Command.unplacedAll as ++ Command.unplacedAll bs := by
  induction as with
  | nil => rfl
  | cons a as ih =>
    rw [List.cons_append, Command.unplacedAll, Command.unplacedAll, ih, List.cons_append]

namespace Parser

open Stencil.Runs

variable {defined : String → Bool}

/-! ## Where tokens lead -/

/-- From a state, tokens lead to one with a property, wherever the tokens stand. -/
def Leads (defined : String → Bool) (s : State) (ts : List Token) (post : State → Prop) : Prop :=
  ∀ placed : List PlacedToken, placed.map PlacedToken.token = ts →
    ∃ s', run defined s placed = .ok s' ∧ post s'

namespace Leads

variable {s : State} {ts us : List Token} {mid post : State → Prop}

theorem nil (h : post s) : Leads defined s [] post := by
  intro placed hplaced
  rw [List.map_eq_nil_iff.1 hplaced]
  exact ⟨s, rfl, h⟩

theorem cons {t : Token}
    (h : ∀ pos, ∃ next, s.step defined ⟨t, pos⟩ = .ok next ∧ Leads defined next ts post) :
    Leads defined s (t :: ts) post := by
  intro placed hplaced
  obtain ⟨⟨u, pos⟩, rest, rfl, hu, hrest⟩ := List.map_eq_cons_iff.1 hplaced
  obtain ⟨next, hstep, hnext⟩ := h pos
  obtain ⟨s', hrun, hs'⟩ := hnext rest hrest
  have hut : u = t := hu
  refine ⟨s', ?_, hs'⟩
  unfold run
  rw [List.foldlM_cons, monad_bind_eq_ok]
  exact ⟨next, by rw [hut]; exact hstep, hrun⟩

theorem append (h : Leads defined s ts mid) (hmid : ∀ s', mid s' → Leads defined s' us post) :
    Leads defined s (ts ++ us) post := by
  intro placed hplaced
  obtain ⟨as, bs, rfl, has, hbs⟩ := List.map_eq_append_iff.1 hplaced
  obtain ⟨s', hrun, hs'⟩ := h as has
  obtain ⟨s'', hrest, hs''⟩ := hmid s' hs' bs hbs
  refine ⟨s'', ?_, hs''⟩
  unfold run
  rw [List.foldlM_append, monad_bind_eq_ok]
  exact ⟨s', hrun, hrest⟩

theorem mono (h : Leads defined s ts mid) (hmid : ∀ s', mid s' → post s') :
    Leads defined s ts post := by
  intro placed hplaced
  obtain ⟨s', hrun, hs'⟩ := h placed hplaced
  exact ⟨s', hrun, hmid s' hs'⟩

end Leads

end Parser

/-! ## Levels -/

namespace Level

/-- A level is another one with further operands in its open command. -/
def Takes (l : Level) (os : List Operand) (l' : Level) : Prop :=
  l'.commands = l.commands
    ∧ ∃ read, l'.args = l.args ++ read ∧ Operand.unplacedAll read = Operand.unplacedAll os

theorem takes_nil (l : Level) : l.Takes [] l := ⟨rfl, [], (List.append_nil _).symm, rfl⟩

theorem Takes.trans {l l' l'' : Level} {os ps : List Operand} (h : l.Takes os l')
    (h' : l'.Takes ps l'') : l.Takes (os ++ ps) l'' := by
  obtain ⟨hcommands, read, hargs, hread⟩ := h
  obtain ⟨hcommands', read', hargs', hread'⟩ := h'
  refine ⟨hcommands'.trans hcommands, read ++ read', ?_, ?_⟩
  · rw [hargs', hargs, List.append_assoc]
  · rw [Operand.unplacedAll_append, Operand.unplacedAll_append, hread, hread']

theorem takes_add (l : Level) (pos : Position) {o read : Operand} (h : read.unplaced = o.unplaced) :
    l.Takes [o] (l.add pos read) := by
  refine ⟨rfl, [read], rfl, ?_⟩
  show [read.unplaced] = [o.unplaced]
  rw [h]

/-- The commands of a level with the open one, positions forgotten. -/
def read (l : Level) : List Command := Command.unplacedAll (l.commands ++ [⟨.start, l.args⟩])

/-- An open command with an operand can be ended. -/
theorem endCommand_of_args {l : Level} (h : l.args ≠ []) (pos : Position) :
    ∃ ended, l.endCommand pos = .ok ended ∧ ended.args = []
      ∧ Command.unplacedAll ended.commands = l.read := by
  have hempty : ¬ l.args.isEmpty = true := by simpa using h
  unfold endCommand
  rw [if_neg hempty]
  refine ⟨_, rfl, rfl, ?_⟩
  rw [read, Command.unplacedAll_append, Command.unplacedAll_append]
  rfl

/-- So can the pipeline. -/
theorem finish_of_args {l : Level} (h : l.args ≠ []) (pos : Position) :
    ∃ p, l.finish pos = .ok p ∧ p.unplaced = ⟨.start, l.read⟩ := by
  obtain ⟨ended, hended, _, hread⟩ := endCommand_of_args h pos
  unfold finish
  rw [hended]
  refine ⟨_, rfl, ?_⟩
  rw [Pipeline.unplaced, hread]

end Level

/-! ## Tokens of a pipeline -/

namespace Parser

/-- The state inside an action with pipelines open. -/
def State.reading (s : State) (purpose : Purpose) (outer : List Level) (inner : Level) : State :=
  { s with mode := .pipeline purpose outer inner }

variable {defined : String → Bool} {s : State} {purpose : Purpose} {outer : List Level}
  {inner : Level}

theorem step_of_reading {t : PlacedToken} {outer' : List Level} {inner' : Level}
    (h : PipelineProgress.step defined outer inner t = .ok (.reading outer' inner')) :
    (s.reading purpose outer inner).step defined t = .ok (s.reading purpose outer' inner') := by
  show (s.reading purpose outer inner).stepPipeline defined purpose outer inner t = _
  unfold State.stepPipeline
  rw [h]
  rfl

/-- A token that is an operand by itself. -/
theorem leads_operandToken {t : Token} {o : Operand}
    (h : ∀ pos, PipelineProgress.step defined outer inner ⟨t, pos⟩
      = .ok (.reading outer (inner.add pos o))) :
    Leads defined (s.reading purpose outer inner) [t] fun s' =>
      ∃ inner', s' = s.reading purpose outer inner' ∧ inner.Takes [o] inner' := by
  refine .cons fun pos => ⟨_, step_of_reading (h pos), .nil ?_⟩
  exact ⟨_, rfl, inner.takes_add pos rfl⟩

mutual

/-- The tokens of an operand add it to the open command. The recursion is that of the printing. -/
theorem leads_operand : (o : Operand) → o.isWritable defined = true → {outer : List Level} →
    {inner : Level} → Leads defined (s.reading purpose outer inner) o.tokens fun s' =>
      ∃ inner', s' = s.reading purpose outer inner' ∧ inner.Takes [o] inner'
  | .dot, _, _, _ => leads_operandToken fun _ => rfl
  | .field _, _, _, _ => leads_operandToken fun _ => rfl
  | .variable _, _, _, _ => leads_operandToken fun _ => rfl
  | .function name, h, _, _ => by
    simp only [Operand.isWritable, Bool.and_eq_true] at h
    refine leads_operandToken fun pos => ?_
    unfold PipelineProgress.step
    simp only [h.2, if_true]
  | .string _, _, _, _ => leads_operandToken fun _ => rfl
  | .int _, _, _, _ => leads_operandToken fun _ => rfl
  | .float _, h, _, _ => absurd h Bool.false_ne_true
  | .bool _, _, _, _ => leads_operandToken fun _ => rfl
  | .nil, _, _, _ => leads_operandToken fun _ => rfl
  | .pipeline p, h, outer, inner => by
    -- The opening parenthesis opens a level, which the closing one makes an operand of this one.
    refine .cons fun pos => ⟨_, step_of_reading rfl, ?_⟩
    refine .append (leads_pipeline p h) fun s' ⟨within, hs', hargs, hread⟩ => ?_
    rw [hs']
    refine .cons fun close => ?_
    obtain ⟨q, hfinish, hq⟩ := Level.finish_of_args hargs close
    have hstep : PipelineProgress.step defined (inner.reach pos :: outer) within
        ⟨.rightParen, close⟩
          = .ok (.reading outer ((inner.reach pos).add close (.pipeline q))) := by
      unfold PipelineProgress.step
      simp only [hfinish]
      rfl
    refine ⟨_, step_of_reading hstep, .nil ⟨_, rfl, ?_⟩⟩
    have hp : (Operand.pipeline q).unplaced = (Operand.pipeline p).unplaced := by
      rw [Operand.unplaced, Operand.unplaced, hq, hread]
    exact (inner.reach pos).takes_add close hp

theorem leads_operands : (os : List Operand) → Operand.areWritable defined os = true →
    {outer : List Level} → {inner : Level} →
      Leads defined (s.reading purpose outer inner) (Operand.tokensOfAll os)
      fun s' => ∃ inner', s' = s.reading purpose outer inner' ∧ inner.Takes os inner'
  | [], _, _, inner => .nil ⟨inner, rfl, inner.takes_nil⟩
  | o :: rest, h, _, inner => by
    simp only [Operand.areWritable, Bool.and_eq_true] at h
    refine .append (leads_operand o h.1) fun s' ⟨next, hs', hnext⟩ => ?_
    rw [hs']
    refine (leads_operands rest h.2).mono fun s'' ⟨last, hs'', hlast⟩ => ?_
    exact ⟨last, hs'', hnext.trans hlast⟩

/-- The tokens of a command complete the open command of a level that has not begun any. -/
theorem leads_command : (c : Command) → c.isWritable defined = true → {outer : List Level} →
    {inner : Level} → inner.args = [] →
    Leads defined (s.reading purpose outer inner) c.tokens fun s' =>
      ∃ inner', s' = s.reading purpose outer inner' ∧ inner'.args ≠ []
        ∧ inner'.read = Command.unplacedAll inner.commands ++ [c.unplaced]
  | ⟨_, args⟩, h, _, inner, hinner => by
    simp only [Command.isWritable, Bool.and_eq_true, Bool.not_eq_true'] at h
    refine (leads_operands args h.2).mono fun s' ⟨inner', hs', htakes⟩ => ⟨inner', hs', ?_⟩
    obtain ⟨hcommands, read, hargs, hread⟩ := htakes
    rw [hinner, List.nil_append] at hargs
    refine ⟨fun hnil => ?_, ?_⟩
    · -- Operands that are none without their positions were none before.
      rw [hargs] at hnil
      rw [hnil] at hread
      rw [Operand.unplacedAll_eq_nil hread.symm] at h
      exact absurd h.1 (by decide)
    · rw [Level.read, Command.unplacedAll_append, hcommands, hargs]
      show _ ++ [(⟨.start, Operand.unplacedAll read⟩ : Command)]
        = _ ++ [(⟨.start, Operand.unplacedAll args⟩ : Command)]
      rw [hread]

theorem leads_piped : (cs : List Command) → Command.areWritable defined cs = true →
    {outer : List Level} → {inner : Level} → inner.args ≠ [] →
      Leads defined (s.reading purpose outer inner) (Command.tokensOfPiped cs) fun s' =>
        ∃ inner', s' = s.reading purpose outer inner' ∧ inner'.args ≠ []
          ∧ inner'.read = inner.read ++ Command.unplacedAll cs
  | [], _, _, inner, hinner => .nil ⟨inner, rfl, hinner, (List.append_nil _).symm⟩
  | c :: rest, h, outer, inner, hinner => by
    simp only [Command.areWritable, Bool.and_eq_true] at h
    refine .cons fun pos => ?_
    obtain ⟨ended, hended, hargs, hcommands⟩ := Level.endCommand_of_args hinner pos
    have hstep : PipelineProgress.step defined outer inner ⟨.pipe, pos⟩
        = .ok (.reading outer ended) := by
      unfold PipelineProgress.step
      simp only [hended]
      rfl
    refine ⟨_, step_of_reading hstep, ?_⟩
    refine .append (leads_command c h.1 hargs) fun s' ⟨next, hs', hnext, hread⟩ => ?_
    rw [hs']
    refine (leads_piped rest h.2 hnext).mono fun s'' ⟨last, hs'', hlast, hall⟩ => ?_
    refine ⟨last, hs'', hlast, ?_⟩
    rw [hall, hread, hcommands, List.append_assoc]
    rfl

/-- The tokens of a pipeline fill a level of which nothing has been read. -/
theorem leads_pipeline : (p : Pipeline) → p.isWritable defined = true → {construct : Construct} →
    {outer : List Level} →
      Leads defined (s.reading purpose outer (.opened construct)) p.tokens fun s' =>
        ∃ inner', s' = s.reading purpose outer inner' ∧ inner'.args ≠ []
          ∧ (⟨.start, inner'.read⟩ : Pipeline) = p.unplaced
  | ⟨_, []⟩, h, _, _ => absurd h (by simp [Pipeline.isWritable])
  | ⟨_, c :: rest⟩, h, construct, _ => by
    simp only [Pipeline.isWritable, Command.areWritable, Bool.and_eq_true] at h
    have hopened : (Level.opened construct).args = [] := rfl
    refine .append (leads_command c h.2.1 hopened) fun s' ⟨next, hs', hnext, hread⟩ => ?_
    rw [hs']
    refine (leads_piped rest h.2.2 hnext).mono fun s'' ⟨last, hs'', hlast, hall⟩ => ?_
    refine ⟨last, hs'', hlast, ?_⟩
    rw [hall, hread]
    rfl

end

end Parser

end Stencil
