import River.Pos
import River.Token

/-! Syntax trees of River files. Only anchors carry a position: where a name or a literal starts,
where a delimiter or an operator stands. All other positions follow from these. -/
namespace River

/-- A name, e.g. of an attribute or of the value that an expression refers to. -/
structure Ident where
  name : String
  pos : Pos
  deriving DecidableEq

mutual

/-- An expression. The text of a literal is its source text; a string keeps its quotes. -/
inductive Expr where
  | ident (id : Ident)
  | literal (kind : Token) (pos : Pos) (text : String)
  | array (elements : List Expr) (lbrack rbrack : Pos)
  | object (fields : List Field) (lcurly rcurly : Pos)
  | access (value : Expr) (name : Ident)
  | index (value index : Expr) (lbrack rbrack : Pos)
  | call (callee : Expr) (args : List Expr) (lparen rparen : Pos)
  | unary (op : Token) (opPos : Pos) (value : Expr)
  | binary (op : Token) (opPos : Pos) (left right : Expr)
  | paren (inner : Expr) (lparen rparen : Pos)

/-- A member of an object. `quoted` tells whether its name was written as a string. -/
structure Field where
  name : Ident
  quoted : Bool
  value : Expr

end

/-- The parts of a block's name, which dots separate; there is at least one. -/
structure BlockName where
  first : String
  rest : List String
  deriving DecidableEq

namespace BlockName

def parts (n : BlockName) : List String := n.first :: n.rest

def text (n : BlockName) : String := ".".intercalate n.parts

end BlockName

/-- A statement: `name = value`, or a named block of statements. -/
inductive Stmt where
  | attribute (name : Ident) (value : Expr)
  | block (name : BlockName) (namePos : Pos) (label : Option String) (body : List Stmt)
      (lcurly rcurly : Pos)

structure Comment where
  start : Pos
  text : String
  deriving DecidableEq

namespace Comment

def groupText (group : List Comment) : String := "\n".intercalate (group.map text)

end Comment

/-- A file. Its comments stand apart from its statements, in groups that nothing else divides. -/
structure File where
  name : String
  body : List Stmt
  comments : List (List Comment)

end River
