/-
The grammar of templates.

Which lists of tokens are templates, and what they mean, is said here without a parser: pipelines are
commands with `|` between them, commands are operands, and a pipeline in parentheses is an operand
again; nodes are texts, actions and the constructs that actions begin, continue and end. A list of
nodes also has the definitions that are found on the way, each where it is complete. Only the
outermost list may have definitions of its own, and they are no nodes in it.

What a source defines is all its definitions, each name once. A name may be defined more than once
only if at most one of its templates has content.
-/
import Stencil.Function.Callees
import Stencil.Proofs.Printing

set_option autoImplicit false

namespace Stencil.Grammar

/-- The tokens of an action, the delimiters and what stands between them. -/
def action (start : Position) (within : List PlacedToken) (close : Position) : List PlacedToken :=
  ⟨.actionStart, start⟩ :: within ++ [⟨.actionEnd, close⟩]

/-! ## Pipelines

A name in front of operands or among them is that of a function, and there has to be one. -/

/-- A token that is an operand by itself. -/
inductive IsValue : Token → Operand → Prop where
  | dot : IsValue .dot .dot
  | field {path : List String} : IsValue (.field path) (.field path)
  | variable {path : List String} : IsValue (.variable path) (.variable path)
  | string {s : String} : IsValue (.string s) (.string s)
  | int {n : Int64} : IsValue (.int n) (.int n)
  | float {x : Float} : IsValue (.float x) (.float x)
  | bool {b : Bool} : IsValue (.bool b) (.bool b)
  | nil : IsValue .nil .nil

mutual

/-- The tokens of an operand. -/
inductive IsOperand (defined : String → Bool) : List PlacedToken → Operand → Prop where
  | value {t : PlacedToken} {o : Operand} : IsValue t.token o → IsOperand defined [t] o
  | function {name : String} {pos : Position} :
      defined name = true → IsOperand defined [⟨.ident name, pos⟩] (.function name)
  | parentheses {left right : Position} {ts : List PlacedToken} {p : Pipeline} :
      IsPipeline defined ts p →
      IsOperand defined (⟨.leftParen, left⟩ :: ts ++ [⟨.rightParen, right⟩]) (.pipeline p)

/-- The tokens of operands, one after the other. -/
inductive IsOperands (defined : String → Bool) : List PlacedToken → List Operand → Prop where
  | nil : IsOperands defined [] []
  | snoc {ts us : List PlacedToken} {os : List Operand} {o : Operand} :
      IsOperands defined ts os → IsOperand defined us o →
      IsOperands defined (ts ++ us) (os ++ [o])

/-- The tokens of a command. There is at least one, and the command stands where it stands. -/
inductive IsCommand (defined : String → Bool) : List PlacedToken → Command → Prop where
  | operands {t : PlacedToken} {ts : List PlacedToken} {os : List Operand} :
      IsOperands defined (t :: ts) os → IsCommand defined (t :: ts) ⟨t.pos, os⟩

/-- The tokens of commands in a row. -/
inductive IsCommands (defined : String → Bool) : List PlacedToken → List Command → Prop where
  | one {ts : List PlacedToken} {c : Command} :
      IsCommand defined ts c → IsCommands defined ts [c]
  | piped {ts us : List PlacedToken} {pos : Position} {cs : List Command} {c : Command} :
      IsCommands defined ts cs → IsCommand defined us c →
      IsCommands defined (ts ++ ⟨.pipe, pos⟩ :: us) (cs ++ [c])

/-- The tokens of a pipeline. -/
inductive IsPipeline (defined : String → Bool) : List PlacedToken → Pipeline → Prop where
  | commands {t : PlacedToken} {ts : List PlacedToken} {cs : List Command} :
      IsCommands defined (t :: ts) cs → IsPipeline defined (t :: ts) ⟨t.pos, cs⟩

end

/-- The tokens of a pipeline that may be missing. -/
inductive IsArgument (defined : String → Bool) : List PlacedToken → Option Pipeline → Prop where
  | missing : IsArgument defined [] none
  | given {ts : List PlacedToken} {p : Pipeline} :
      IsPipeline defined ts p → IsArgument defined ts (some p)

/-! ## Actions that begin with a keyword -/

/-- An action of a keyword only. -/
inductive IsClause (k : Keyword) : List PlacedToken → Prop where
  | mk {start place close : Position} : IsClause k (action start [⟨.keyword k, place⟩] close)

/-- An action of a keyword and a pipeline, at a position. -/
inductive IsHeader (defined : String → Bool) (k : Keyword) (start : Position) :
    List PlacedToken → Pipeline → Prop where
  | mk {place close : Position} {ts : List PlacedToken} {p : Pipeline} :
      IsPipeline defined ts p →
      IsHeader defined k start (action start (⟨.keyword k, place⟩ :: ts) close) p

/-- An action that begins a further branch. -/
inductive IsElseIf (defined : String → Bool) : List PlacedToken → Pipeline → Prop where
  | mk {start place place' close : Position} {ts : List PlacedToken} {p : Pipeline} :
      IsPipeline defined ts p →
      IsElseIf defined
        (action start (⟨.keyword .elseWord, place⟩ :: ⟨.keyword .ifWord, place'⟩ :: ts) close) p

/-- An action of a keyword, a name and perhaps a pipeline, at a position. -/
inductive IsNamedHeader (defined : String → Bool) (k : Keyword) (start : Position) (name : String) :
    List PlacedToken → Option Pipeline → Prop where
  | mk {place place' close : Position} {ts : List PlacedToken} {p : Option Pipeline} :
      IsArgument defined ts p →
      IsNamedHeader defined k start name
        (action start (⟨.keyword k, place⟩ :: ⟨.string name, place'⟩ :: ts) close) p

/-- An action that begins a definition. -/
inductive IsDefineHeader (name : String) : List PlacedToken → Prop where
  | mk {start place place' close : Position} :
      IsDefineHeader name
        (action start [⟨.keyword .defineWord, place⟩, ⟨.string name, place'⟩] close)

/-! ## Nodes

The last argument of each relation has the definitions found in the tokens. -/

mutual

/-- The tokens of a node. A block is a call where it stands and a definition of what is called. -/
inductive IsNode (defined : String → Bool) : List PlacedToken → Node → List Tree → Prop where
  | text {s : String} {pos : Position} : IsNode defined [⟨.text s, pos⟩] (.text s) []
  | output {start close : Position} {ts : List PlacedToken} {p : Pipeline} :
      IsPipeline defined ts p → IsNode defined (action start ts close) (.action p) []
  | conditional {start : Position} {ts us vs : List PlacedToken} {bs : List Branch}
      {otherwise : Option (List Node)} {ds ds' : List Tree} :
      IsBranches defined start ts bs ds → IsAlternative defined us otherwise ds' →
      IsClause .endWord vs →
      IsNode defined (ts ++ us ++ vs) (.conditional start bs otherwise) (ds ++ ds')
  | rebind {kind : Rebinding} {start : Position} {hs ts us vs : List PlacedToken} {p : Pipeline}
      {body : List Node} {otherwise : Option (List Node)} {ds ds' : List Tree} :
      IsHeader defined kind.keyword start hs p → IsNodes defined false ts body ds →
      IsAlternative defined us otherwise ds' → IsClause .endWord vs →
      IsNode defined (hs ++ ts ++ us ++ vs) (.rebind kind start p body otherwise) (ds ++ ds')
  | call {start : Position} {name : String} {hs : List PlacedToken} {p : Option Pipeline} :
      IsNamedHeader defined .templateWord start name hs p →
      IsNode defined hs (.call start name p) []
  | block {start : Position} {name : String} {hs ts us : List PlacedToken} {p : Option Pipeline}
      {body : List Node} {ds : List Tree} :
      IsNamedHeader defined .blockWord start name hs p → IsNodes defined false ts body ds →
      IsClause .endWord us →
      IsNode defined (hs ++ ts ++ us) (.call start name p) (ds ++ [⟨name, body⟩])

/-- The tokens of a list of nodes, the outermost one or one inside a construct. -/
inductive IsNodes (defined : String → Bool) :
    Bool → List PlacedToken → List Node → List Tree → Prop where
  | nil {outermost : Bool} : IsNodes defined outermost [] [] []
  | node {outermost : Bool} {ts us : List PlacedToken} {ns : List Node} {n : Node}
      {ds ds' : List Tree} :
      IsNodes defined outermost ts ns ds → IsNode defined us n ds' →
      IsNodes defined outermost (ts ++ us) (ns ++ [n]) (ds ++ ds')
  | define {ts hs us vs : List PlacedToken} {ns body : List Node} {name : String}
      {ds ds' : List Tree} :
      IsNodes defined true ts ns ds → IsDefineHeader name hs → IsNodes defined false us body ds' →
      IsClause .endWord vs →
      IsNodes defined true (ts ++ (hs ++ us ++ vs)) ns (ds ++ (ds' ++ [⟨name, body⟩]))

/-- The tokens of the branches of a conditional that begins at a position. -/
inductive IsBranches (defined : String → Bool) :
    Position → List PlacedToken → List Branch → List Tree → Prop where
  | first {start : Position} {hs ts : List PlacedToken} {p : Pipeline} {body : List Node}
      {ds : List Tree} :
      IsHeader defined .ifWord start hs p → IsNodes defined false ts body ds →
      IsBranches defined start (hs ++ ts) [⟨p, body⟩] ds
  | further {start : Position} {ts hs us : List PlacedToken} {bs : List Branch} {p : Pipeline}
      {body : List Node} {ds ds' : List Tree} :
      IsBranches defined start ts bs ds → IsElseIf defined hs p →
      IsNodes defined false us body ds' →
      IsBranches defined start (ts ++ hs ++ us) (bs ++ [⟨p, body⟩]) (ds ++ ds')

/-- The tokens of a last alternative, which may be missing. -/
inductive IsAlternative (defined : String → Bool) :
    List PlacedToken → Option (List Node) → List Tree → Prop where
  | missing : IsAlternative defined [] none []
  | given {hs ts : List PlacedToken} {body : List Node} {ds : List Tree} :
      IsClause .elseWord hs → IsNodes defined false ts body ds →
      IsAlternative defined (hs ++ ts) (some body) ds

end

/-! ## Definitions of one name -/

/-- Says that no name has two templates with content. -/
def Compatible (ds : List Tree) : Prop :=
  ds.Pairwise fun t u => t.name = u.name → t.isEmpty = true ∨ u.isEmpty = true

/-- The template that a name gets from several definitions: one with content, or else the first. -/
def chosen? (ds : List Tree) (name : String) : Option Tree :=
  ((ds.filter fun t => t.name = name).find? fun t => !t.isEmpty).or
    (ds.filter fun t => t.name = name).head?

/-- Definitions with each name once, in the order of first appearance. -/
def collected (ds : List Tree) : List Tree :=
  (ds.map Tree.name).eraseDups.filterMap (chosen? ds)

/-! ## Sources -/

/-- Says that tokens are a template with the given parts, if it is parsed under a name. -/
def IsTemplate (functions : FuncTable) (name : String) (tokens : List PlacedToken)
    (parsed : ParsedSource) : Prop :=
  ∃ nodes ds, IsNodes functions.defines true tokens nodes ds ∧ Compatible ds
    ∧ parsed = ⟨⟨name, nodes⟩, collected ds⟩

end Stencil.Grammar
