/-
Parsed trees have no holes.

A pipeline that has been parsed has a command, a command an operand, a conditional a branch, and no
text is empty. The last of these comes from the lexer and is carried along the derivations of the
grammar as a condition on tokens; the others hold because the grammar has no rule for the empty case.
-/
import Stencil.Proofs.Bracketing
import Stencil.Proofs.GrammarOfRuns
import Stencil.Proofs.LastWord

set_option autoImplicit false

namespace Stencil

/-! ## Trees without holes -/

mutual

/-- Whether nothing is missing in an operand. -/
def Operand.isFull : Operand → Bool
  | .dot => true
  | .field _ => true
  | .variable _ => true
  | .function _ => true
  | .string _ => true
  | .int _ => true
  | .float _ => true
  | .bool _ => true
  | .nil => true
  | .pipeline p => p.isFull

/-- Whether nothing is missing in any of some operands. -/
def Operand.areFull : List Operand → Bool
  | [] => true
  | o :: rest => o.isFull && Operand.areFull rest

/-- Whether a command has an operand, and nothing is missing in any. -/
def Command.isFull : Command → Bool
  | ⟨_, args⟩ => !args.isEmpty && Operand.areFull args

/-- Whether nothing is missing in any of some commands. -/
def Command.areFull : List Command → Bool
  | [] => true
  | c :: rest => c.isFull && Command.areFull rest

/-- Whether a pipeline has a command, and nothing is missing in any. -/
def Pipeline.isFull : Pipeline → Bool
  | ⟨_, cs⟩ => !cs.isEmpty && Command.areFull cs

end

mutual

/-- Whether nothing is missing in a node: a text has characters, and a conditional has a branch. -/
def Node.isFull : Node → Bool
  | .text s => s != ""
  | .action p => p.isFull
  | .conditional _ branches otherwise =>
    !branches.isEmpty && Branch.areFull branches && Node.isFullAlternative otherwise
  | .rebind _ _ p body otherwise =>
    p.isFull && Node.areFull body && Node.isFullAlternative otherwise
  | .call _ _ p => p.all Pipeline.isFull

/-- Whether nothing is missing in any of some nodes. -/
def Node.areFull : List Node → Bool
  | [] => true
  | n :: rest => n.isFull && Node.areFull rest

/-- Whether nothing is missing in the last alternative of a construct, if it has one. -/
def Node.isFullAlternative : Option (List Node) → Bool
  | none => true
  | some body => Node.areFull body

/-- Whether nothing is missing in any of some branches. -/
def Branch.areFull : List Branch → Bool
  | [] => true
  | ⟨condition, body⟩ :: rest => condition.isFull && Node.areFull body && Branch.areFull rest

end

/-- Whether nothing is missing in a template. -/
def Tree.isFull (t : Tree) : Bool := Node.areFull t.root

/-! ## Lists that grow at their end -/

theorem Operand.areFull_concat (os : List Operand) (o : Operand) :
    areFull (os ++ [o]) = (areFull os && o.isFull) := by
  induction os with
  | nil => simp [areFull]
  | cons first rest ih => rw [List.cons_append, areFull, ih, areFull, Bool.and_assoc]

theorem Command.areFull_concat (cs : List Command) (c : Command) :
    areFull (cs ++ [c]) = (areFull cs && c.isFull) := by
  induction cs with
  | nil => simp [areFull]
  | cons first rest ih => rw [List.cons_append, areFull, ih, areFull, Bool.and_assoc]

theorem Node.areFull_concat (ns : List Node) (n : Node) :
    areFull (ns ++ [n]) = (areFull ns && n.isFull) := by
  induction ns with
  | nil => simp [areFull]
  | cons first rest ih => rw [List.cons_append, areFull, ih, areFull, Bool.and_assoc]

theorem Branch.areFull_concat (bs : List Branch) (p : Pipeline) (body : List Node) :
    areFull (bs ++ [⟨p, body⟩]) = (areFull bs && (p.isFull && Node.areFull body)) := by
  induction bs with
  | nil => simp [areFull]
  | cons first rest ih =>
    obtain ⟨condition, before⟩ := first
    rw [List.cons_append, areFull, ih, areFull]
    simp only [Bool.and_assoc]

/-! ## What the grammar derives -/

namespace Grammar

variable {defined : String → Bool}

/-- Tokens that are operands by themselves have no pipeline in them. -/
theorem isFull_of_isValue {t : Token} {o : Operand} (h : IsValue t o) : o.isFull = true := by
  cases h <;> rw [Operand.isFull]

mutual

theorem isFull_operand : ∀ {ts : List PlacedToken} {o : Operand}, IsOperand defined ts o →
    o.isFull = true
  | _, _, .value h => isFull_of_isValue h
  | _, _, .function _ => by rw [Operand.isFull]
  | _, _, .parentheses h => by
    rw [Operand.isFull]
    exact isFull_pipeline h

theorem areFull_operands : ∀ {ts : List PlacedToken} {os : List Operand},
    IsOperands defined ts os → Operand.areFull os = true
  | _, _, .nil => by rw [Operand.areFull]
  | _, _, .snoc hos ho => by
    rw [Operand.areFull_concat, areFull_operands hos, isFull_operand ho, Bool.and_self]

theorem isFull_command : ∀ {ts : List PlacedToken} {c : Command}, IsCommand defined ts c →
    c.isFull = true
  | _, _, .operands h => by
    have hne := Parser.ne_nil_of_isOperands h
    rw [Command.isFull, areFull_operands h, Bool.and_true, Bool.not_eq_true']
    exact List.isEmpty_eq_false_iff.2 hne

theorem areFull_commands : ∀ {ts : List PlacedToken} {cs : List Command},
    IsCommands defined ts cs → cs ≠ [] ∧ Command.areFull cs = true
  | _, _, .one h => by
    refine ⟨by simp, ?_⟩
    rw [Command.areFull, Command.areFull, isFull_command h, Bool.and_self]
  | _, _, .piped hcs hc => by
    refine ⟨by simp, ?_⟩
    rw [Command.areFull_concat, (areFull_commands hcs).2, isFull_command hc, Bool.and_self]

/-- Nothing is missing in a pipeline, at any nesting of parentheses. -/
theorem isFull_pipeline : ∀ {ts : List PlacedToken} {p : Pipeline}, IsPipeline defined ts p →
    p.isFull = true
  | _, _, .commands h => by
    obtain ⟨hne, hall⟩ := areFull_commands h
    rw [Pipeline.isFull, hall, Bool.and_true, Bool.not_eq_true']
    exact List.isEmpty_eq_false_iff.2 hne

end

theorem isFull_call {k : Keyword} {start : Position} {name : String} {ts : List PlacedToken}
    {p : Option Pipeline} (h : IsNamedHeader defined k start name ts p) :
    (Node.call start name p).isFull = true := by
  obtain ⟨hp⟩ := h
  rw [Node.isFull]
  cases hp with
  | missing => rfl
  | given hp => exact isFull_pipeline hp

/-- Says that nothing is missing in nodes and in the definitions found in them. -/
structure AllFull (here : Bool) (ds : List Tree) : Prop where
  here : here = true
  definitions : ∀ d ∈ ds, d.isFull = true

namespace AllFull

variable {here here' : Bool} {ds ds' : List Tree}

theorem nil (h : here = true) : AllFull here [] := ⟨h, fun _ hd => absurd hd List.not_mem_nil⟩

theorem append (h : AllFull here ds) (h' : AllFull here' ds') :
    AllFull (here && here') (ds ++ ds') := by
  refine ⟨by rw [h.here, h'.here, Bool.and_self], fun d hd => ?_⟩
  rcases List.mem_append.1 hd with hd | hd
  · exact h.definitions d hd
  · exact h'.definitions d hd

/-- What stands in a pipeline joins what stands in the nodes behind it. -/
theorem behind (h : here = true) (h' : AllFull here' ds) : AllFull (here && here') ds :=
  ⟨by rw [h, h'.here, Bool.and_self], h'.definitions⟩

/-- A body becomes a definition. -/
theorem define {body : List Node} (h : AllFull (Node.areFull body) ds) (name : String) :
    ∀ d ∈ ds ++ [⟨name, body⟩], d.isFull = true := by
  intro d hd
  rcases List.mem_append.1 hd with hd | hd
  · exact h.definitions d hd
  · rw [List.mem_singleton.1 hd]
    exact h.here

end AllFull

/-- Says that no text among tokens is empty. -/
def TextsFull (ts : List PlacedToken) : Prop := ∀ t ∈ ts, t.token ≠ .text ""

theorem TextsFull.left {ts us : List PlacedToken} (h : TextsFull (ts ++ us)) : TextsFull ts :=
  fun t ht => h t (List.mem_append_left _ ht)

theorem TextsFull.right {ts us : List PlacedToken} (h : TextsFull (ts ++ us)) : TextsFull us :=
  fun t ht => h t (List.mem_append_right _ ht)

theorem ne_nil_of_isBranches {start : Position} {ts : List PlacedToken} {bs : List Branch}
    {ds : List Tree} (h : IsBranches defined start ts bs ds) : bs ≠ [] := by
  cases h with
  | first => simp
  | further => simp

mutual

theorem allFull_node : ∀ {ts : List PlacedToken} {n : Node} {ds : List Tree},
    IsNode defined ts n ds → TextsFull ts → AllFull n.isFull ds
  | _, _, _, .text (s := s), hts => by
    rw [Node.isFull]
    refine .nil ?_
    rw [bne_iff_ne]
    rintro rfl
    exact hts _ List.mem_cons_self rfl
  | _, _, _, .output h, _ => by
    rw [Node.isFull]
    exact .nil (isFull_pipeline h)
  | _, _, _, .conditional hbs hotherwise _, hts => by
    have hne := List.isEmpty_eq_false_iff.2 (ne_nil_of_isBranches hbs)
    have hbranches := allFull_branches hbs hts.left.left
    rw [Node.isFull, hne, Bool.not_false, Bool.true_and]
    exact hbranches.append (allFull_alternative hotherwise hts.left.right)
  | _, _, _, .rebind (.mk hp) hbody hotherwise _, hts => by
    rw [Node.isFull]
    exact (AllFull.behind (isFull_pipeline hp) (allFull_nodes hbody hts.left.left.right)).append
      (allFull_alternative hotherwise hts.left.right)
  | _, _, _, .call hhead, _ => .nil (isFull_call hhead)
  | _, _, _, .block hhead hbody _, hts =>
    ⟨isFull_call hhead, (allFull_nodes hbody hts.left.right).define _⟩

/-- Nothing is missing in a list of nodes, and in no definition among them. -/
theorem allFull_nodes : ∀ {outermost : Bool} {ts : List PlacedToken} {ns : List Node}
    {ds : List Tree}, IsNodes defined outermost ts ns ds → TextsFull ts →
      AllFull (Node.areFull ns) ds
  | _, _, _, _, .nil, _ => by
    rw [Node.areFull]
    exact .nil rfl
  | _, _, _, _, .node hns hn, hts => by
    rw [Node.areFull_concat]
    exact (allFull_nodes hns hts.left).append (allFull_node hn hts.right)
  | _, _, _, _, .define hns _ hbody _, hts => by
    have hbefore := allFull_nodes hns hts.left
    have hinside := (allFull_nodes hbody hts.right.left.right).define
    refine ⟨hbefore.here, fun d hd => ?_⟩
    rcases List.mem_append.1 hd with hd | hd
    · exact hbefore.definitions d hd
    · exact hinside _ d hd

theorem allFull_branches : ∀ {start : Position} {ts : List PlacedToken} {bs : List Branch}
    {ds : List Tree}, IsBranches defined start ts bs ds → TextsFull ts →
      AllFull (Branch.areFull bs) ds
  | _, _, _, _, .first (.mk hp) hbody, hts => by
    rw [Branch.areFull, Branch.areFull, Bool.and_true]
    exact .behind (isFull_pipeline hp) (allFull_nodes hbody hts.right)
  | _, _, _, _, .further hbs (.mk hp) hbody, hts => by
    rw [Branch.areFull_concat]
    exact (allFull_branches hbs hts.left.left).append
      (.behind (isFull_pipeline hp) (allFull_nodes hbody hts.right))

theorem allFull_alternative : ∀ {ts : List PlacedToken} {otherwise : Option (List Node)}
    {ds : List Tree}, IsAlternative defined ts otherwise ds → TextsFull ts →
      AllFull (Node.isFullAlternative otherwise) ds
  | _, _, _, .missing, _ => by
    rw [Node.isFullAlternative]
    exact .nil rfl
  | _, _, _, .given _ hbody, hts => by
    rw [Node.isFullAlternative]
    exact allFull_nodes hbody hts.right

end

/-- Tokens in brackets have no empty text, inside an action or outside. -/
theorem textsFull_of_bracketed {ts : List PlacedToken} (h : Bracketed ts) : TextsFull ts := by
  induction h with
  | nil => exact fun _ ht => absurd ht List.not_mem_nil
  | text hs _ ih =>
    intro t ht heq
    rcases List.mem_cons.1 ht with rfl | ht
    · exact hs (Token.text.inj heq)
    · exact ih t ht heq
  | action hwithin _ ih =>
    intro t ht heq
    rw [action, List.cons_append, List.cons_append, List.mem_cons, List.append_assoc,
      List.mem_append, List.singleton_append, List.mem_cons] at ht
    rcases ht with rfl | ht | rfl | ht
    · cases heq
    · have hinside := hwithin t ht
      rw [heq] at hinside
      exact Bool.false_ne_true hinside
    · cases heq
    · exact ih t ht heq

end Grammar

/-- **Nothing is missing in a parsed source**, neither in its own content nor in its definitions. -/
theorem ParsedSource.isFull_of_parse {functions : FuncTable} {name source : String}
    {parsed : ParsedSource} (h : Parser.parse functions.defines name source = .ok parsed) :
    ∀ t ∈ parsed.trees, t.isFull = true := by
  obtain ⟨tokens, hlexed, htokens⟩ := Parser.parse_eq_ok_iff_tokens.1 h
  obtain ⟨nodes, ds, hnodes, _, rfl⟩ := Grammar.isTemplate_of_parseTokens htokens
  have hall := Grammar.allFull_nodes hnodes
    (Grammar.textsFull_of_bracketed (bracketed_of_tokensOf hlexed))
  intro t ht
  rcases List.mem_cons.1 ht with rfl | ht
  · exact hall.here
  · -- Collecting the definitions adds none.
    obtain ⟨found, _, hchosen⟩ := List.mem_filterMap.1 ht
    exact hall.definitions t (Grammar.mem_of_chosen? hchosen)

end Stencil
