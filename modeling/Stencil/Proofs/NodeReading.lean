/-
Nodes and definitions are read back from their tokens.

A construct opens a frame, and what is read then counts for the frame until its end is met. So the
statements about parts of a construct say what they make of the frame and of the nodes that have
been read in it, and the one about the whole node says that it is added to the nodes that were
there.
-/
import Stencil.Proofs.PipelineReading

set_option autoImplicit false

namespace Stencil.Parser

open Stencil.Runs

variable {defined : String → Bool} {s : State} {nodes before : List Node} {opened : List Opened}
  {defines : List Tree}

/-! ## Actions with a pipeline -/

/-- What an action does does not depend on how the parser stands in it. -/
theorem finishPipeline_of_mode (m : Mode) (p : Pipeline) (purpose : Purpose) :
    State.finishPipeline { s with mode := m } p purpose = s.finishPipeline p purpose := by
  cases purpose with
  | output => rfl
  | condition pos => rfl
  | elseIf pos =>
    obtain ⟨nodes, opened, defines, mode⟩ := s
    cases opened with
    | nil => rfl
    | cons o outer =>
      obtain ⟨frame, before⟩ := o
      cases frame <;> rfl
  | rebind kind pos => rfl
  | named kind pos name => cases kind <;> rfl

theorem stepPipeline_of_mode (m : Mode) (purpose : Purpose) (outer : List Level) (inner : Level)
    (t : PlacedToken) :
    State.stepPipeline defined { s with mode := m } purpose outer inner t
      = s.stepPipeline defined purpose outer inner t := by
  unfold State.stepPipeline
  refine bind_congr fun progress => ?_
  cases progress with
  | reading outer inner => rfl
  | done p => exact finishPipeline_of_mode m p purpose

/-- The tokens of a pipeline and the closing delimiter end the action. -/
theorem leads_toEnd {p : Pipeline} {purpose : Purpose} {construct : Construct} {post : State → Prop}
    (hp : p.isWritable defined = true)
    (hpost : ∀ q, q.unplaced = p.unplaced → ∃ s', s.finishPipeline q purpose = .ok s' ∧ post s') :
    Leads defined (s.reading purpose [] (.opened construct)) (p.tokens ++ [.actionEnd]) post := by
  refine .append (leads_pipeline p hp) fun s' ⟨inner, hs', hargs, hread⟩ => ?_
  rw [hs']
  refine .cons fun pos => ?_
  obtain ⟨q, hfinish, hq⟩ := Level.finish_of_args hargs pos
  obtain ⟨s'', hs'', hpost⟩ := hpost q (hq.trans hread)
  have hdone : PipelineProgress.step defined [] inner ⟨.actionEnd, pos⟩ = .ok (.done q) := by
    unfold PipelineProgress.step
    simp only [hfinish]
    rfl
  refine ⟨s'', ?_, .nil hpost⟩
  show (s.reading purpose [] inner).stepPipeline defined purpose [] inner ⟨.actionEnd, pos⟩ = _
  unfold State.stepPipeline
  rw [hdone]
  exact (finishPipeline_of_mode _ q purpose).trans hs''

/-- An action of a keyword and a pipeline. -/
theorem leads_header {p : Pipeline} {k : Keyword} {purpose : Position → Purpose}
    {post : State → Prop} (hp : p.isWritable defined = true)
    (hk : ∀ (s : State) pos, s.stepKeyword pos k = .ok (s.awaitPipeline (purpose pos)))
    (hpost : ∀ pos q, q.unplaced = p.unplaced →
      ∃ s', State.finishPipeline ⟨nodes, opened, defines, .outside⟩ q (purpose pos) = .ok s'
        ∧ post s') :
    Leads defined ⟨nodes, opened, defines, .outside⟩
      (Piece.action (.keyword k :: p.tokens)).tokens post := by
  refine .cons fun pos => ⟨_, rfl, ?_⟩
  refine .cons fun _ => ⟨_, hk _ pos, ?_⟩
  refine leads_toEnd hp fun q hq => ?_
  obtain ⟨s', hs', hpost⟩ := hpost pos q hq
  exact ⟨s', (finishPipeline_of_mode (.opened pos) q (purpose pos)).trans hs', hpost⟩

/-! ## Actions in which a pipeline may be missing or begin at once -/

/-- Whether a token begins a pipeline, where a keyword or the end of the action might stand. -/
def beginsPipeline : Token → Bool
  | .keyword _ => false
  | .actionEnd => false
  | _ => true

theorem operand_tokens_eq_cons (o : Operand) :
    ∃ t ts, o.tokens = t :: ts ∧ beginsPipeline t = true := by
  cases o with
  | pipeline p => exact ⟨_, _, rfl, rfl⟩
  | _ => exact ⟨_, _, rfl, rfl⟩

theorem pipeline_tokens_eq_cons {p : Pipeline} (h : p.isWritable defined = true) :
    ∃ t ts, p.tokens = t :: ts ∧ beginsPipeline t = true := by
  obtain ⟨pos, cs⟩ := p
  match cs, h with
  | [], h => exact absurd h (by simp [Pipeline.isWritable])
  | ⟨_, []⟩ :: _, h =>
    exact absurd h (by simp [Pipeline.isWritable, Command.areWritable, Command.isWritable])
  | ⟨_, o :: os⟩ :: cs, _ =>
    obtain ⟨t, ts, ho, ht⟩ := operand_tokens_eq_cons o
    refine ⟨t, ts ++ Operand.tokensOfAll os ++ Command.tokensOfPiped cs, ?_, ht⟩
    show o.tokens ++ Operand.tokensOfAll os ++ Command.tokensOfPiped cs = _
    rw [ho]
    rfl

/-- From two states in which the first token makes the same, tokens lead to the same. -/
theorem Leads.of_step {s s' : State} {t : Token} {ts : List Token} {post : State → Prop}
    (hstep : ∀ pos, s.step defined ⟨t, pos⟩ = s'.step defined ⟨t, pos⟩)
    (h : Leads defined s' (t :: ts) post) : Leads defined s (t :: ts) post := by
  intro placed hplaced
  obtain ⟨⟨u, pos⟩, rest, rfl, hu, _⟩ := List.map_eq_cons_iff.1 hplaced
  obtain ⟨s'', hrun, hs''⟩ := h _ hplaced
  have hut : u = t := hu
  refine ⟨s'', ?_, hs''⟩
  unfold run at hrun ⊢
  rw [List.foldlM_cons] at hrun ⊢
  rw [hut] at hrun ⊢
  rw [hstep pos]
  exact hrun

theorem step_of_opened {t : PlacedToken} {pos : Position} (h : beginsPipeline t.token = true) :
    State.step defined { s with mode := .opened pos } t
      = (s.reading .output [] (.opened .command)).step defined t := by
  obtain ⟨token, place⟩ := t
  have hbegin : State.step defined { s with mode := .opened pos } ⟨token, place⟩
      = State.stepPipeline defined { s with mode := .opened pos } .output []
          (.opened .command) ⟨token, place⟩ := by
    cases token with
    | keyword k => exact absurd h Bool.false_ne_true
    | _ => rfl
  rw [hbegin, stepPipeline_of_mode]
  exact (stepPipeline_of_mode _ _ _ _ _).symm

theorem step_of_named {t : PlacedToken} {kind : Named} {pos : Position} {name : String}
    (h : beginsPipeline t.token = true) :
    State.step defined { s with mode := .named kind pos name } t
      = (s.reading (.named kind pos name) [] (.opened kind.construct)).step defined t := by
  obtain ⟨token, place⟩ := t
  have hbegin : State.step defined { s with mode := .named kind pos name } ⟨token, place⟩
      = State.stepPipeline defined { s with mode := .named kind pos name } (.named kind pos name) []
          (.opened kind.construct) ⟨token, place⟩ := by
    cases token with
    | actionEnd => exact absurd h Bool.false_ne_true
    | _ => rfl
  rw [hbegin, stepPipeline_of_mode]
  exact (stepPipeline_of_mode _ _ _ _ _).symm

/-- An action that is a pipeline adds a node. -/
theorem leads_output {p : Pipeline} (hp : p.isWritable defined = true) :
    Leads defined ⟨nodes, opened, defines, .outside⟩ (Piece.action p.tokens).tokens fun s' =>
      ∃ q, q.unplaced = p.unplaced ∧ s' = ⟨nodes ++ [.action q], opened, defines, .outside⟩ := by
  refine .cons fun pos => ⟨_, rfl, ?_⟩
  have hend : Leads defined
      (State.reading ⟨nodes, opened, defines, .outside⟩ .output [] (.opened .command))
      (p.tokens ++ [.actionEnd]) fun s' =>
        ∃ q, q.unplaced = p.unplaced ∧ s' = ⟨nodes ++ [.action q], opened, defines, .outside⟩ :=
    leads_toEnd hp fun q hq => ⟨_, rfl, q, hq, rfl⟩
  obtain ⟨t, ts, htokens, ht⟩ := pipeline_tokens_eq_cons hp
  rw [htokens] at hend ⊢
  exact .of_step (fun _ => step_of_opened ht) hend

/-- An action that calls a template adds a node. -/
theorem leads_call {name : String} {p : Option Pipeline}
    (hp : p.all (Pipeline.isWritable defined) = true) :
    Leads defined ⟨nodes, opened, defines, .outside⟩
      (Piece.action (.keyword .templateWord :: .string name
        :: (p.map Pipeline.tokens).getD [])).tokens fun s' =>
        ∃ pos q, q.map Pipeline.unplaced = p.map Pipeline.unplaced
          ∧ s' = ⟨nodes ++ [.call pos name q], opened, defines, .outside⟩ := by
  refine .cons fun pos => ⟨_, rfl, ?_⟩
  refine .cons fun _ => ⟨_, rfl, ?_⟩
  refine .cons fun _ => ⟨_, rfl, ?_⟩
  cases p with
  | none => exact .cons fun _ => ⟨_, rfl, .nil ⟨pos, none, rfl, rfl⟩⟩
  | some p =>
    have hend : Leads defined
        (State.reading ⟨nodes, opened, defines, .outside⟩ (.named .call pos name) []
          (.opened .template)) (p.tokens ++ [.actionEnd]) fun s' =>
        ∃ pos q, q.map Pipeline.unplaced = (some p).map Pipeline.unplaced
          ∧ s' = ⟨nodes ++ [.call pos name q], opened, defines, .outside⟩ :=
      leads_toEnd hp fun q hq => ⟨_, rfl, pos, some q, congrArg some hq, rfl⟩
    obtain ⟨t, ts, htokens, ht⟩ := pipeline_tokens_eq_cons hp
    show Leads defined _ (p.tokens ++ [.actionEnd]) _
    rw [htokens] at hend ⊢
    exact .of_step (fun _ => step_of_named ht) hend

/-! ## Positions forgotten in lists of branches -/

theorem unplacedAll_append_branches (as bs : List Branch) :
    Branch.unplacedAll (as ++ bs) = Branch.unplacedAll as ++ Branch.unplacedAll bs := by
  induction as with
  | nil => rfl
  | cons b as ih =>
    obtain ⟨condition, body⟩ := b
    rw [List.cons_append, Branch.unplacedAll, Branch.unplacedAll, ih, List.cons_append]

/-! ## Frames -/

/-- The frame of a construct behind its last alternative has begun, `nodes` being the body before.
-/
def elseFrame? (nodes : List Node) : Frame → Option Frame
  | .branch start done condition => some (.elseOfBranches start (done ++ [⟨condition, nodes⟩]))
  | .rebind kind start pipeline => some (.elseOfRebind kind start pipeline nodes)
  | _ => none

theorem leads_elseClause {frame next : Frame} (h : elseFrame? nodes frame = some next) :
    Leads defined ⟨nodes, ⟨frame, before⟩ :: opened, defines, .outside⟩ Piece.elseClause.tokens
      fun s' => s' = ⟨[], ⟨next, before⟩ :: opened, defines, .outside⟩ := by
  refine .cons fun pos => ⟨_, rfl, ?_⟩
  refine .cons fun _ => ⟨_, rfl, ?_⟩
  refine .cons fun _ => ⟨_, ?_, .nil rfl⟩
  cases frame with
  | branch start done condition =>
    cases h
    rfl
  | rebind kind start pipeline =>
    cases h
    rfl
  | _ => exact absurd h (Option.some_ne_none _).symm

theorem leads_endClause {post : State → Prop}
    (h : ∀ pos, ∃ s', State.endClause ⟨nodes, opened, defines, .closing pos .endClause⟩ pos = .ok s'
      ∧ post s') :
    Leads defined ⟨nodes, opened, defines, .outside⟩ Piece.endClause.tokens post := by
  refine .cons fun pos => ⟨_, rfl, ?_⟩
  refine .cons fun _ => ⟨_, rfl, ?_⟩
  refine .cons fun _ => ?_
  obtain ⟨s', hs', hpost⟩ := h pos
  exact ⟨s', hs', .nil hpost⟩

/-- A further branch begins: the one before it is done. -/
theorem leads_elseIf {p : Pipeline} {start : Position} {done : List Branch} {guard : Pipeline}
    (hp : p.isWritable defined = true) :
    Leads defined ⟨nodes, ⟨.branch start done guard, before⟩ :: opened, defines, .outside⟩
      (Piece.action (.keyword .elseWord :: .keyword .ifWord :: p.tokens)).tokens fun s' =>
        ∃ q, q.unplaced = p.unplaced ∧ s' = ⟨[],
          ⟨.branch start (done ++ [⟨guard, nodes⟩]) q, before⟩ :: opened, defines, .outside⟩ := by
  refine .cons fun pos => ⟨_, rfl, ?_⟩
  refine .cons fun _ => ⟨_, rfl, ?_⟩
  refine .cons fun _ => ⟨_, rfl, ?_⟩
  exact leads_toEnd hp fun q hq => ⟨_, rfl, q, hq, rfl⟩

/-- A construct that rebinds the current value begins. -/
theorem leads_rebind {p : Pipeline} {kind : Rebinding} (hp : p.isWritable defined = true) :
    Leads defined ⟨nodes, opened, defines, .outside⟩
      (Piece.action (.keyword kind.keyword :: p.tokens)).tokens fun s' =>
        ∃ start q, q.unplaced = p.unplaced
          ∧ s' = ⟨[], ⟨.rebind kind start q, nodes⟩ :: opened, defines, .outside⟩ := by
  have hk : ∀ (s : State) pos,
      s.stepKeyword pos kind.keyword = .ok (s.awaitPipeline (.rebind kind pos)) := by
    intro s pos
    cases kind <;> rfl
  exact leads_header hp hk fun start q hq => ⟨_, rfl, start, q, hq, rfl⟩

/-- A conditional begins with its first branch. -/
theorem leads_if {p : Pipeline} (hp : p.isWritable defined = true) :
    Leads defined ⟨nodes, opened, defines, .outside⟩
      (Piece.action (.keyword .ifWord :: p.tokens)).tokens fun s' =>
        ∃ start q, q.unplaced = p.unplaced
          ∧ s' = ⟨[], ⟨.branch start [] q, nodes⟩ :: opened, defines, .outside⟩ := by
  have hk : ∀ (s : State) pos,
      s.stepKeyword pos .ifWord = .ok (s.awaitPipeline (.condition pos)) := fun _ _ => rfl
  exact leads_header hp hk fun start q hq => ⟨_, rfl, start, q, hq, rfl⟩

/-- What a last alternative makes of a frame: nothing if it is missing. -/
def AfterAlternative (nodes before : List Node) (opened : List Opened) (defines : List Tree)
    (frame : Frame) (otherwise : Option (List Node)) (s' : State) : Prop :=
  match otherwise with
  | none => s' = ⟨nodes, ⟨frame, before⟩ :: opened, defines, .outside⟩
  | some body => ∃ next read, elseFrame? nodes frame = some next
      ∧ Node.unplacedAll read = Node.unplacedAll body
      ∧ s' = ⟨read, ⟨next, before⟩ :: opened, defines, .outside⟩

theorem leads_endOfRebind {kind : Rebinding} {pos start : Position} {p q : Pipeline}
    {body : List Node} {otherwise : Option (List Node)}
    (hs : AfterAlternative nodes before opened defines (.rebind kind start q) otherwise s)
    (hq : q.unplaced = p.unplaced) (hbody : Node.unplacedAll nodes = Node.unplacedAll body) :
    Leads defined s Piece.endClause.tokens fun s' =>
      ∃ read, read.unplaced = (Node.rebind kind pos p body otherwise).unplaced
        ∧ s' = ⟨before ++ [read], opened, defines, .outside⟩ := by
  cases otherwise with
  | none =>
    rw [show s = _ from hs]
    refine leads_endClause fun _ => ⟨_, rfl, .rebind kind start q nodes none, ?_, rfl⟩
    rw [Node.unplaced, Node.unplaced, hq, hbody]
  | some other =>
    obtain ⟨next, read, hnext, hread, hs⟩ := hs
    cases hnext
    rw [hs]
    refine leads_endClause fun _ => ⟨_, rfl, .rebind kind start q nodes (some read), ?_, rfl⟩
    rw [Node.unplaced, Node.unplaced, hq, hbody, Node.unplacedAlternative, Node.unplacedAlternative,
      hread]

theorem leads_endOfBranches {pos start : Position} {done branches : List Branch} {guard : Pipeline}
    {otherwise : Option (List Node)}
    (hs : AfterAlternative nodes before opened defines (.branch start done guard) otherwise s)
    (hbranches : Branch.unplacedAll (done ++ [⟨guard, nodes⟩]) = Branch.unplacedAll branches) :
    Leads defined s Piece.endClause.tokens fun s' =>
      ∃ read, read.unplaced = (Node.conditional pos branches otherwise).unplaced
        ∧ s' = ⟨before ++ [read], opened, defines, .outside⟩ := by
  cases otherwise with
  | none =>
    rw [show s = _ from hs]
    refine leads_endClause fun _ =>
      ⟨_, rfl, .conditional start (done ++ [⟨guard, nodes⟩]) none, ?_, rfl⟩
    rw [Node.unplaced, Node.unplaced, hbranches]
  | some other =>
    obtain ⟨next, read, hnext, hread, hs⟩ := hs
    cases hnext
    rw [hs]
    refine leads_endClause fun _ =>
      ⟨_, rfl, .conditional start (done ++ [⟨guard, nodes⟩]) (some read), ?_, rfl⟩
    rw [Node.unplaced, Node.unplaced, hbranches, Node.unplacedAlternative, Node.unplacedAlternative,
      hread]

/-! ## Nodes -/

mutual

/-- The tokens of a node add it to the nodes that are there. The recursion is that of the printing.
-/
theorem leads_node : (n : Node) → n.isWritable defined = true → {nodes : List Node} →
    {opened : List Opened} → Leads defined ⟨nodes, opened, defines, .outside⟩
      (n.pieces.flatMap Piece.tokens) fun s' =>
        ∃ read, read.unplaced = n.unplaced ∧ s' = ⟨nodes ++ [read], opened, defines, .outside⟩
  | .text t, _, _, _ => .cons fun _ => ⟨_, rfl, .nil ⟨.text t, rfl, rfl⟩⟩
  | .action p, h, _, _ => by
    show Leads defined _ ((Piece.action p.tokens).tokens ++ []) _
    rw [List.append_nil]
    refine (leads_output h).mono fun s' ⟨q, hq, hs'⟩ => ⟨.action q, ?_, hs'⟩
    rw [Node.unplaced, Node.unplaced, hq]
  | .conditional _ [] _, h, _, _ => absurd h (by simp [Node.isWritable])
  | .conditional pos (⟨condition, body⟩ :: rest) otherwise, h, nodes, opened => by
    simp only [Node.isWritable, Branch.areWritable, Bool.and_eq_true] at h
    obtain ⟨⟨_, ⟨hcondition, hbody⟩, hrest⟩, hotherwise⟩ := h
    simp only [Node.pieces, Branch.piecesOfFirst, List.cons_append, List.flatMap_cons,
      List.flatMap_append, List.append_assoc, List.flatMap_nil, List.append_nil]
    -- The first branch opens the frame; the further ones and the alternative are read within it.
    refine .append (leads_if hcondition) fun s' ⟨start, q, hq, hs'⟩ => ?_
    rw [hs']
    refine .append (leads_nodes body hbody) fun s' ⟨read, hread, hs'⟩ => ?_
    rw [hs']
    refine .append (leads_further rest hrest) fun s' ⟨done, guard, last, hall, hs'⟩ => ?_
    rw [hs']
    refine .append (leads_alternative otherwise hotherwise rfl) fun s' hs' => ?_
    refine leads_endOfBranches hs' (hall.trans ?_)
    show (⟨q.unplaced, Node.unplacedAll read⟩ : Branch) :: Branch.unplacedAll rest = _
    rw [hq, hread]
    rfl
  | .rebind kind pos p body otherwise, h, nodes, opened => by
    simp only [Node.isWritable, Bool.and_eq_true] at h
    obtain ⟨⟨hp, hbody⟩, hotherwise⟩ := h
    simp only [Node.pieces, List.cons_append, List.flatMap_cons, List.flatMap_append,
      List.append_assoc, List.flatMap_nil, List.append_nil]
    refine .append (leads_rebind hp) fun s' ⟨start, q, hq, hs'⟩ => ?_
    rw [hs']
    refine .append (leads_nodes body hbody) fun s' ⟨read, hread, hs'⟩ => ?_
    rw [hs']
    refine .append (leads_alternative otherwise hotherwise rfl) fun s' hs' => ?_
    exact leads_endOfRebind hs' hq hread
  | .call pos name p, h, _, _ => by
    show Leads defined _ ((Piece.action (.keyword .templateWord :: .string name
      :: (p.map Pipeline.tokens).getD [])).tokens ++ []) _
    rw [List.append_nil]
    refine (leads_call h).mono fun s' ⟨pos, q, hq, hs'⟩ => ⟨.call pos name q, ?_, hs'⟩
    rw [Node.unplaced, Node.unplaced, hq]

theorem leads_nodes : (ns : List Node) → Node.areWritable defined ns = true → {nodes : List Node} →
    {opened : List Opened} → Leads defined ⟨nodes, opened, defines, .outside⟩
      ((Node.piecesOfAll ns).flatMap Piece.tokens) fun s' =>
        ∃ read, Node.unplacedAll read = Node.unplacedAll ns
          ∧ s' = ⟨nodes ++ read, opened, defines, .outside⟩
  | [], _, nodes, opened => .nil ⟨[], rfl, by rw [List.append_nil]⟩
  | n :: rest, h, nodes, opened => by
    simp only [Node.areWritable, Bool.and_eq_true] at h
    rw [Node.piecesOfAll, List.flatMap_append]
    refine .append (leads_node n h.1.1) fun s' ⟨read, hread, hs'⟩ => ?_
    rw [hs']
    refine (leads_nodes rest h.2).mono fun s'' ⟨others, hothers, hs''⟩ => ?_
    refine ⟨read :: others, ?_, ?_⟩
    · rw [Node.unplacedAll, Node.unplacedAll, hread, hothers]
    · rw [hs'', List.append_assoc]
      rfl

theorem leads_alternative : (otherwise : Option (List Node)) →
    Node.isWritableAlternative defined otherwise = true → {nodes before : List Node} →
      {opened : List Opened} → {frame : Frame} → (elseFrame? nodes frame).isSome = true →
        Leads defined ⟨nodes, ⟨frame, before⟩ :: opened, defines, .outside⟩
          ((Node.piecesOfAlternative otherwise).flatMap Piece.tokens)
          (AfterAlternative nodes before opened defines frame otherwise)
  | none, _, _, _, _, _, _ => .nil rfl
  | some body, h, nodes, before, opened, frame, hframe => by
    obtain ⟨next, hnext⟩ := Option.isSome_iff_exists.1 hframe
    rw [Node.piecesOfAlternative, List.flatMap_cons]
    refine .append (leads_elseClause hnext) fun s' hs' => ?_
    rw [hs']
    refine (leads_nodes body h).mono fun s'' ⟨read, hread, hs''⟩ => ?_
    exact ⟨next, read, hnext, hread, hs''⟩

theorem leads_further : (bs : List Branch) → Branch.areWritable defined bs = true →
    {nodes before : List Node} → {opened : List Opened} → {start : Position} →
      {done : List Branch} → {guard : Pipeline} →
        Leads defined ⟨nodes, ⟨.branch start done guard, before⟩ :: opened, defines, .outside⟩
          ((Branch.piecesOfFurther bs).flatMap Piece.tokens) fun s' =>
            ∃ done' guard' nodes', Branch.unplacedAll (done' ++ [⟨guard', nodes'⟩])
                = Branch.unplacedAll (done ++ [⟨guard, nodes⟩]) ++ Branch.unplacedAll bs
              ∧ s' = ⟨nodes', ⟨.branch start done' guard', before⟩ :: opened, defines, .outside⟩
  | [], _, nodes, _, _, _, done, guard => .nil ⟨done, guard, nodes, (List.append_nil _).symm, rfl⟩
  | ⟨condition, body⟩ :: rest, h, nodes, before, opened, start, done, guard => by
    simp only [Branch.areWritable, Bool.and_eq_true] at h
    obtain ⟨⟨hcondition, hbody⟩, hrest⟩ := h
    rw [Branch.piecesOfFurther, List.cons_append, List.flatMap_cons, List.flatMap_append]
    refine .append (leads_elseIf hcondition) fun s' ⟨q, hq, hs'⟩ => ?_
    rw [hs']
    refine .append (leads_nodes body hbody) fun s' ⟨read, hread, hs'⟩ => ?_
    rw [hs']
    refine (leads_further rest hrest).mono fun s'' ⟨done', guard', nodes', hbranches, hs''⟩ => ?_
    refine ⟨done', guard', nodes', ?_, hs''⟩
    -- The branch that was open is done, and the one that was read here is open.
    rw [hbranches, unplacedAll_append_branches, List.append_assoc]
    show _ ++ ((⟨q.unplaced, Node.unplacedAll read⟩ : Branch) :: Branch.unplacedAll rest) = _
    rw [hq, hread]
    rfl

end

end Stencil.Parser
