/-
What has been printed is read back.

A source that is written so that it has given definitions in front of given content is accepted, and
its parts are those definitions, in their order, and that content; only positions differ. The tokens
are found by the lexer whatever blanks there are, and running the parser over them adds one
definition after the other and then the nodes of the content.
-/
import Stencil.Function.Callees
import Stencil.Proofs.Definitions
import Stencil.Proofs.Lexing
import Stencil.Proofs.NodeReading

set_option autoImplicit false

namespace Stencil.Parser

open Stencil.Runs

variable {defined : String → Bool} {defines : List Tree}

/-! ## Definitions -/

/-- The tokens of a definition of a new name add it to the definitions that are there. -/
theorem leads_define {t : Tree} (ht : Node.areWritable defined t.root = true)
    (hnew : t.name ∉ defines.map Tree.name) :
    Leads defined ⟨[], [], defines, .outside⟩ (t.pieces.flatMap Piece.tokens) fun s' =>
      ∃ read, read.name = t.name ∧ read.unplaced = t.unplaced
        ∧ s' = ⟨[], [], defines ++ [read], .outside⟩ := by
  have hopen : Leads defined ⟨[], [], defines, .outside⟩
      (Piece.action [.keyword .defineWord, .string t.name]).tokens fun s' =>
        ∃ start, s' = ⟨[], [⟨.define start t.name, []⟩], defines, .outside⟩ := by
    refine .cons fun _ => ⟨_, rfl, ?_⟩
    refine .cons fun _ => ⟨_, rfl, ?_⟩
    refine .cons fun start => ⟨_, rfl, ?_⟩
    exact .cons fun _ => ⟨_, rfl, .nil ⟨start, rfl⟩⟩
  simp only [Tree.pieces, List.cons_append, List.flatMap_cons, List.flatMap_append,
    List.flatMap_nil, List.append_nil]
  -- The body is read in a frame, from an empty list of nodes.
  refine .append hopen ?_
  rintro s' ⟨start, rfl⟩
  refine .append (leads_nodes t.root ht) ?_
  rintro s' ⟨body, hbody, rfl⟩
  rw [List.nil_append]
  refine leads_endClause fun _ => ?_
  have hadd : addDefine ⟨t.name, body⟩ start defines = .ok (defines ++ [⟨t.name, body⟩]) :=
    addDefine_of_new hnew
  refine ⟨⟨[], [], defines ++ [⟨t.name, body⟩], .outside⟩, ?_, ⟨t.name, body⟩, rfl, ?_, rfl⟩
  · simp only [State.endClause, State.define, hadd]
    rfl
  · rw [Tree.unplaced, Tree.unplaced, hbody]

/-- The tokens of definitions of distinct new names add them all, in their order. -/
theorem leads_defines {ts : List Tree} (hts : ∀ t ∈ ts, Node.areWritable defined t.root = true)
    (hnames : ((defines ++ ts).map Tree.name).Nodup) :
    Leads defined ⟨[], [], defines, .outside⟩ ((ts.flatMap Tree.pieces).flatMap Piece.tokens)
      fun s' => ∃ read, read.map Tree.unplaced = ts.map Tree.unplaced
        ∧ s' = ⟨[], [], defines ++ read, .outside⟩ := by
  induction ts generalizing defines with
  | nil => exact .nil ⟨[], rfl, by rw [List.append_nil]⟩
  | cons t ts ih =>
    rw [List.map_append, List.map_cons] at hnames
    have hnew : t.name ∉ defines.map Tree.name := fun h =>
      (List.nodup_append.1 hnames).2.2 _ h _ List.mem_cons_self rfl
    rw [List.flatMap_cons, List.flatMap_append]
    have ht : Node.areWritable defined t.root = true := hts t List.mem_cons_self
    refine .append (leads_define ht hnew) ?_
    rintro s' ⟨first, hname, hfirst, rfl⟩
    -- What was read has the name of the definition, so the names stay the same ones.
    have hrest : ((defines ++ [first] ++ ts).map Tree.name).Nodup := by
      rw [List.map_append, List.map_append, List.map_singleton, hname, List.append_assoc]
      exact hnames
    have hmore := ih (fun u hu => hts u (List.mem_cons_of_mem t hu)) hrest
    refine hmore.mono ?_
    rintro s'' ⟨read, hread, rfl⟩
    refine ⟨first :: read, ?_, ?_⟩
    · rw [List.map_cons, List.map_cons, hfirst, hread]
    · rw [List.append_assoc]
      rfl

/-! ## Sources -/

/-- The tokens of a source, wherever they stand, are read as its definitions and its content. -/
theorem parseTokens_of_tokens {name : String} {main : List Node} {placed : List PlacedToken}
    (hdefines : ∀ t ∈ defines, Node.areWritable defined t.root = true)
    (hmain : Node.areWritable defined main = true) (hnames : (defines.map Tree.name).Nodup)
    (hplaced : placed.map PlacedToken.token = (Piece.ofSource defines main).flatMap Piece.tokens) :
    ∃ parsed, parseTokens defined name placed = .ok parsed ∧ parsed.main.name = name
      ∧ Node.unplacedAll parsed.main.root = Node.unplacedAll main
      ∧ parsed.defines.map Tree.unplaced = defines.map Tree.unplaced := by
  have hleads : Leads defined State.initial ((Piece.ofSource defines main).flatMap Piece.tokens)
      fun s' => ∃ nodes read, Node.unplacedAll nodes = Node.unplacedAll main
        ∧ read.map Tree.unplaced = defines.map Tree.unplaced
        ∧ s' = ⟨nodes, [], read, .outside⟩ := by
    rw [Piece.ofSource, List.flatMap_append]
    refine .append (leads_defines hdefines hnames) ?_
    rintro s' ⟨read, hread, rfl⟩
    refine (leads_nodes main hmain).mono ?_
    rintro s'' ⟨nodes, hnodes, hs''⟩
    exact ⟨nodes, read, hnodes, hread, hs''⟩
  obtain ⟨s, hrun, nodes, read, hnodes, hread, hs⟩ := hleads placed hplaced
  refine ⟨⟨⟨name, nodes⟩, read⟩, ?_, rfl, hnodes, hread⟩
  unfold parseTokens
  rw [hrun, hs]
  rfl

/-- **Parsing undoes printing.** Definitions with distinct names and content that can be written are
printed as a source, and however a source is written that has them, parsing it succeeds and gives
back this content and these definitions in this order, up to positions. -/
theorem parse_printed (functions : FuncTable) (name : String) (defines : List Tree)
    (main : List Node) (hnames : (defines.map Tree.name).Nodup)
    (hdefines : ∀ t ∈ defines, Node.areWritable functions.defines t.root = true)
    (hmain : Node.areWritable functions.defines main = true) :
    Printed defines main (print defines main) ∧
      ∀ source, Printed defines main source →
        ∃ parsed, parse functions.defines name source = .ok parsed ∧ parsed.main.name = name
          ∧ Node.unplacedAll parsed.main.root = Node.unplacedAll main
          ∧ parsed.defines.map Tree.unplaced = defines.map Tree.unplaced := by
  refine ⟨printed_print defines main, fun source hsource => ?_⟩
  have hreadable : Readable false (Piece.ofSource defines main) := readable_ofSource hdefines hmain
  obtain ⟨placed, htokens, hplaced⟩ := tokensOf_of_written hreadable hsource
  obtain ⟨parsed, hparsed, hparts⟩ := parseTokens_of_tokens hdefines hmain hnames hplaced
  refine ⟨parsed, ?_, hparts⟩
  unfold parse
  rw [htokens]
  exact hparsed

/-- A definition of how an item is written. -/
def rowOfItem : Tree := ⟨"row", [.text "- ", .action ⟨.start, [⟨.start, [.dot]⟩]⟩]⟩

/-- Content that calls the definition from one construct inside another. -/
def pageOfRows : List Node :=
  [.rebind .range .start ⟨.start, [⟨.start, [.field ["items"]]⟩]⟩
    [.conditional .start
      [⟨⟨.start, [⟨.start, [.function "eq", .dot, .int (-1)]⟩]⟩, [.text "\x7b none \x7d"]⟩]
      (some [.call .start "row" (some ⟨.start, [⟨.start, [.dot]⟩]⟩)])]
    none]

/-- The definition and the content are distinct, can be written, and are read back. -/
theorem parse_printed_pageOfRows :
    ([rowOfItem].map Tree.name).Nodup
      ∧ (∀ t ∈ [rowOfItem], Node.areWritable (FuncTable.defines .empty) t.root = true)
      ∧ Node.areWritable (FuncTable.defines .empty) pageOfRows = true
      ∧ ∃ parsed,
        parse (FuncTable.defines .empty) "list" (print [rowOfItem] pageOfRows) = .ok parsed
        ∧ parsed.main.name = "list"
        ∧ Node.unplacedAll parsed.main.root = Node.unplacedAll pageOfRows
        ∧ parsed.defines.map Tree.unplaced = [rowOfItem].map Tree.unplaced := by
  have hnames : ([rowOfItem].map Tree.name).Nodup := by decide
  have hdefines : ∀ t ∈ [rowOfItem],
      Node.areWritable (FuncTable.defines .empty) t.root = true := by decide +kernel
  have hmain : Node.areWritable (FuncTable.defines .empty) pageOfRows = true := by decide +kernel
  obtain ⟨hprinted, hall⟩ :=
    parse_printed .empty "list" [rowOfItem] pageOfRows hnames hdefines hmain
  exact ⟨hnames, hdefines, hmain, hall _ hprinted⟩

end Stencil.Parser
