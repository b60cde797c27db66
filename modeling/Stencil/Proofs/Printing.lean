/-
How templates are written.

Nodes are written as pieces, texts and actions in turn, and an action as its tokens. What is left
open is where blanks stand between the tokens of an action, so the step from pieces to characters is
a relation and not a function: there may be blanks everywhere, and there have to be some between two
tokens unless one of them is a parenthesis or a pipe on the inner side.

Not everything can be written. Text must not look like the beginning of an action, names must be
identifiers, and floating-point numbers are left out because their digits are rounded when they are
read.
-/
import Stencil.Template.Parser
import Stencil.Text.Search

set_option autoImplicit false

namespace Stencil

/-! ## Tokens -/

/-- How a character of a string is written between double quotes. -/
def Text.escaped (c : Char) : List Char :=
  if c = '\n' then ['\\', 'n']
  else if c = '\t' then ['\\', 't']
  else if c = '\r' then ['\\', 'r']
  else if c = '"' then ['\\', '"']
  else if c = '\\' then ['\\', '\\']
  else [c]

/-- How a token is written. -/
def Token.spelling : Token → List Char
  | .text s => s.toList
  | .actionStart => ['\x7b', '\x7b']
  | .actionEnd => ['\x7d', '\x7d']
  | .keyword k => k.spelling.toList
  | .ident name => name.toList
  | .field path => Lexeme.chainSpelling (path.map String.toList)
  | .dot => ['.']
  | .variable path => '$' :: Lexeme.chainSpelling (path.map String.toList)
  | .string s => '"' :: s.toList.flatMap Text.escaped ++ ['"']
  | .int n => Decimal.integerChars n.toInt
  | .float x => (Decimal.text x).toList
  | .bool b => if b then ['t', 'r', 'u', 'e'] else ['f', 'a', 'l', 's', 'e']
  | .nil => ['n', 'i', 'l']
  | .pipe => ['|']
  | .leftParen => ['(']
  | .rightParen => [')']

/-- Whether two tokens may stand in an action without a blank between them. -/
def Token.mayTouch : Token → Token → Bool
  | .pipe, _ => true
  | .leftParen, _ => true
  | _, .pipe => true
  | _, .rightParen => true
  | _, _ => false

/-! ## Pipelines as tokens -/

mutual

/-- The tokens of an operand. -/
def Operand.tokens : Operand → List Token
  | .dot => [.dot]
  | .field path => [.field path]
  | .variable path => [.variable path]
  | .function name => [.ident name]
  | .string s => [.string s]
  | .int n => [.int n]
  | .float x => [.float x]
  | .bool b => [.bool b]
  | .nil => [.nil]
  | .pipeline p => .leftParen :: p.tokens ++ [.rightParen]

/-- The tokens of operands, one after the other. -/
def Operand.tokensOfAll : List Operand → List Token
  | [] => []
  | o :: rest => o.tokens ++ Operand.tokensOfAll rest

/-- The tokens of a command. -/
def Command.tokens : Command → List Token
  | ⟨_, args⟩ => Operand.tokensOfAll args

/-- The tokens of commands to which something is piped. -/
def Command.tokensOfPiped : List Command → List Token
  | [] => []
  | c :: rest => .pipe :: c.tokens ++ Command.tokensOfPiped rest

/-- The tokens of commands in a row. -/
def Command.tokensOfAll : List Command → List Token
  | [] => []
  | c :: rest => c.tokens ++ Command.tokensOfPiped rest

/-- The tokens of a pipeline. -/
def Pipeline.tokens : Pipeline → List Token
  | ⟨_, cs⟩ => Command.tokensOfAll cs

end

/-! ## Nodes as pieces -/

/-- A piece of a source: text, or an action by its tokens without the delimiters. -/
inductive Piece where
  | text (s : String)
  | action (tokens : List Token)

/-- The tokens of a piece, the delimiters included. -/
def Piece.tokens : Piece → List Token
  | .text s => [.text s]
  | .action ts => .actionStart :: ts ++ [.actionEnd]

/-- The keyword of an action that rebinds the current value. -/
def Rebinding.keyword : Rebinding → Keyword
  | .range => .rangeWord
  | .scoped => .withWord

/-- The action that ends a construct. -/
def Piece.endClause : Piece := .action [.keyword .endWord]

/-- The action before the last alternative of a construct. -/
def Piece.elseClause : Piece := .action [.keyword .elseWord]

mutual

/-- The pieces of a node. -/
def Node.pieces : Node → List Piece
  | .text s => [.text s]
  | .action p => [.action p.tokens]
  | .conditional _ branches otherwise =>
    Branch.piecesOfFirst branches ++ Node.piecesOfAlternative otherwise ++ [.endClause]
  | .rebind kind _ p body otherwise =>
    .action (.keyword kind.keyword :: p.tokens) :: Node.piecesOfAll body ++
      Node.piecesOfAlternative otherwise ++ [.endClause]
  | .call _ name p =>
    [.action (.keyword .templateWord :: .string name :: (p.map Pipeline.tokens).getD [])]

/-- The pieces of nodes, one after the other. -/
def Node.piecesOfAll : List Node → List Piece
  | [] => []
  | n :: rest => n.pieces ++ Node.piecesOfAll rest

/-- The pieces of the last alternative of a construct, if it has one. -/
def Node.piecesOfAlternative : Option (List Node) → List Piece
  | none => []
  | some body => .elseClause :: Node.piecesOfAll body

/-- The pieces of branches, of which the first begins the construct. -/
def Branch.piecesOfFirst : List Branch → List Piece
  | [] => []
  | ⟨condition, body⟩ :: rest =>
    .action (.keyword .ifWord :: condition.tokens) :: Node.piecesOfAll body ++
      Branch.piecesOfFurther rest

/-- The pieces of further branches. -/
def Branch.piecesOfFurther : List Branch → List Piece
  | [] => []
  | ⟨condition, body⟩ :: rest =>
    .action (.keyword .elseWord :: .keyword .ifWord :: condition.tokens) ::
      Node.piecesOfAll body ++ Branch.piecesOfFurther rest

end

/-- The pieces of a definition. -/
def Tree.pieces (t : Tree) : List Piece :=
  .action [.keyword .defineWord, .string t.name] :: Node.piecesOfAll t.root ++ [.endClause]

/-- The pieces of a source with definitions in front of its own content. -/
def Piece.ofSource (defines : List Tree) (main : List Node) : List Piece :=
  defines.flatMap Tree.pieces ++ Node.piecesOfAll main

/-! ## Pieces as characters -/

/-- What may stand behind the opening delimiter of an action: its tokens with blanks between them,
and the closing delimiter. The first argument is the token in front, if there is one. -/
inductive WrittenAction : Option Token → List Token → List Char → Prop where
  | close {prev : Option Token} {gap : List Char} :
      gap.all Text.isBlank = true → WrittenAction prev [] (gap ++ ['\x7d', '\x7d'])
  | token {prev : Option Token} {t : Token} {ts : List Token} {gap rest : List Char} :
      gap.all Text.isBlank = true → (gap = [] → ∀ p, prev = some p → p.mayTouch t = true) →
      WrittenAction (some t) ts rest →
      WrittenAction prev (t :: ts) (gap ++ t.spelling ++ rest)

/-- How pieces may be written. -/
inductive WrittenPieces : List Piece → List Char → Prop where
  | nil : WrittenPieces [] []
  | text {s : String} {ps : List Piece} {rest : List Char} :
      WrittenPieces ps rest → WrittenPieces (.text s :: ps) (s.toList ++ rest)
  | action {ts : List Token} {ps : List Piece} {body rest : List Char} :
      WrittenAction none ts body → WrittenPieces ps rest →
      WrittenPieces (.action ts :: ps) ('\x7b' :: '\x7b' :: body ++ rest)

/-- A source is written so that it has the given definitions in front of its own content. -/
def Printed (defines : List Tree) (main : List Node) (source : String) : Prop :=
  WrittenPieces (Piece.ofSource defines main) source.toList

/-! ## A printer

One way to write everything: a blank in front of every token and of every closing delimiter. -/

/-- What stands behind the opening delimiter of an action. -/
def Token.printAll : List Token → List Char
  | [] => [' ', '\x7d', '\x7d']
  | t :: rest => ' ' :: t.spelling ++ Token.printAll rest

/-- The characters of pieces. -/
def Piece.printAll : List Piece → List Char
  | [] => []
  | .text s :: rest => s.toList ++ Piece.printAll rest
  | .action ts :: rest => '\x7b' :: '\x7b' :: Token.printAll ts ++ Piece.printAll rest

/-- The source with the given definitions and content. -/
def print (defines : List Tree) (main : List Node) : String :=
  String.ofList (Piece.printAll (Piece.ofSource defines main))

theorem writtenAction_printAll (prev : Option Token) (ts : List Token) :
    WrittenAction prev ts (Token.printAll ts) := by
  induction ts generalizing prev with
  | nil => exact @WrittenAction.close prev [' '] rfl
  | cons t rest ih =>
    have hgap : [' '] = [] → ∀ p, prev = some p → p.mayTouch t = true := fun h => by cases h
    exact @WrittenAction.token prev t rest [' '] _ rfl hgap (ih (some t))

theorem writtenPieces_printAll (ps : List Piece) : WrittenPieces ps (Piece.printAll ps) := by
  induction ps with
  | nil => exact .nil
  | cons p rest ih =>
    cases p with
    | text s => exact .text ih
    | action ts => exact .action (writtenAction_printAll none ts) ih

theorem printed_print (defines : List Tree) (main : List Node) :
    Printed defines main (print defines main) := by
  unfold Printed print
  rw [String.toList_ofList]
  exact writtenPieces_printAll _

/-! ## What can be written -/

/-- Whether a text is an identifier: an ASCII letter or underscore with such characters and digits
behind it. -/
def isIdentifier (s : String) : Bool :=
  match s.toList with
  | [] => false
  | c :: rest => Lexeme.isNameStart c && rest.all Lexeme.isNameChar

/-- Whether a word is a constant or a keyword. -/
def isReserved (s : String) : Bool :=
  s == "true" || s == "false" || s == "nil" || (Keyword.ofSpelling? s).isSome

/-- Whether a text can stand in front of an action: it is not empty, and no opening delimiter begins
in it. -/
def isPlainText (s : List Char) : Bool :=
  !s.isEmpty && !Text.occurs ['\x7b', '\x7b'] s && s.getLast? != some '\x7b'

mutual

/-- Whether an operand can be written, `defined` telling which functions there are. -/
def Operand.isWritable (defined : String → Bool) : Operand → Bool
  | .dot => true
  | .field path => !path.isEmpty && path.all isIdentifier
  | .variable path => path.all isIdentifier
  | .function name => isIdentifier name && !isReserved name && defined name
  | .string _ => true
  | .int _ => true
  | .float _ => false
  | .bool _ => true
  | .nil => true
  | .pipeline p => p.isWritable defined

/-- Whether all operands can be written. -/
def Operand.areWritable (defined : String → Bool) : List Operand → Bool
  | [] => true
  | o :: rest => o.isWritable defined && Operand.areWritable defined rest

/-- Whether a command can be written. It needs an operand. -/
def Command.isWritable (defined : String → Bool) : Command → Bool
  | ⟨_, args⟩ => !args.isEmpty && Operand.areWritable defined args

/-- Whether all commands can be written. -/
def Command.areWritable (defined : String → Bool) : List Command → Bool
  | [] => true
  | c :: rest => c.isWritable defined && Command.areWritable defined rest

/-- Whether a pipeline can be written. It needs a command. -/
def Pipeline.isWritable (defined : String → Bool) : Pipeline → Bool
  | ⟨_, cs⟩ => !cs.isEmpty && Command.areWritable defined cs

end

/-- Whether nodes begin with text. -/
def Node.startWithText : List Node → Bool
  | .text _ :: _ => true
  | _ => false

mutual

/-- Whether a node can be written. A conditional needs a branch. -/
def Node.isWritable (defined : String → Bool) : Node → Bool
  | .text s => isPlainText s.toList
  | .action p => p.isWritable defined
  | .conditional _ branches otherwise =>
    !branches.isEmpty && Branch.areWritable defined branches &&
      Node.isWritableAlternative defined otherwise
  | .rebind _ _ p body otherwise =>
    p.isWritable defined && Node.areWritable defined body &&
      Node.isWritableAlternative defined otherwise
  | .call _ _ p => p.all (Pipeline.isWritable defined)

/-- Whether nodes can be written one after the other. No text may follow on a text. -/
def Node.areWritable (defined : String → Bool) : List Node → Bool
  | [] => true
  | n :: rest =>
    n.isWritable defined && !(Node.startWithText [n] && Node.startWithText rest) &&
      Node.areWritable defined rest

/-- Whether the last alternative of a construct can be written, if it has one. -/
def Node.isWritableAlternative (defined : String → Bool) : Option (List Node) → Bool
  | none => true
  | some body => Node.areWritable defined body

/-- Whether all branches can be written. -/
def Branch.areWritable (defined : String → Bool) : List Branch → Bool
  | [] => true
  | ⟨condition, body⟩ :: rest =>
    condition.isWritable defined && Node.areWritable defined body &&
      Branch.areWritable defined rest

end

/-! ## Trees without places -/

mutual

/-- The operand with every position forgotten. -/
def Operand.unplaced : Operand → Operand
  | .pipeline p => .pipeline p.unplaced
  | .dot => .dot
  | .field path => .field path
  | .variable path => .variable path
  | .function name => .function name
  | .string s => .string s
  | .int n => .int n
  | .float x => .float x
  | .bool b => .bool b
  | .nil => .nil

/-- The operands with every position forgotten. -/
def Operand.unplacedAll : List Operand → List Operand
  | [] => []
  | o :: rest => o.unplaced :: Operand.unplacedAll rest

/-- The command with every position forgotten. -/
def Command.unplaced : Command → Command
  | ⟨_, args⟩ => ⟨.start, Operand.unplacedAll args⟩

/-- The commands with every position forgotten. -/
def Command.unplacedAll : List Command → List Command
  | [] => []
  | c :: rest => c.unplaced :: Command.unplacedAll rest

/-- The pipeline with every position forgotten. -/
def Pipeline.unplaced : Pipeline → Pipeline
  | ⟨_, cs⟩ => ⟨.start, Command.unplacedAll cs⟩

end

mutual

/-- The node with every position forgotten. -/
def Node.unplaced : Node → Node
  | .text s => .text s
  | .action p => .action p.unplaced
  | .conditional _ branches otherwise =>
    .conditional .start (Branch.unplacedAll branches) (Node.unplacedAlternative otherwise)
  | .rebind kind _ p body otherwise =>
    .rebind kind .start p.unplaced (Node.unplacedAll body) (Node.unplacedAlternative otherwise)
  | .call _ name p => .call .start name (p.map Pipeline.unplaced)

/-- The nodes with every position forgotten. -/
def Node.unplacedAll : List Node → List Node
  | [] => []
  | n :: rest => n.unplaced :: Node.unplacedAll rest

/-- The last alternative of a construct with every position forgotten. -/
def Node.unplacedAlternative : Option (List Node) → Option (List Node)
  | none => none
  | some body => some (Node.unplacedAll body)

/-- The branches with every position forgotten. -/
def Branch.unplacedAll : List Branch → List Branch
  | [] => []
  | ⟨condition, body⟩ :: rest =>
    ⟨condition.unplaced, Node.unplacedAll body⟩ :: Branch.unplacedAll rest

end

/-- The tree with every position forgotten. -/
def Tree.unplaced (t : Tree) : Tree := ⟨t.name, Node.unplacedAll t.root⟩

end Stencil
