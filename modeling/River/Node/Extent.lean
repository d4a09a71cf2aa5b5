import River.Node
import River.Span

/-! The span of a node follows from the positions stored in it and below it. -/
namespace River

/-- The last byte of a text that starts at `start`; an empty text ends where it starts. -/
def textEnd (start : Pos) (text : String) : Pos := start.advance (text.utf8ByteSize - 1)

def Ident.last (id : Ident) : Pos := textEnd id.pos id.name

def Comment.last (c : Comment) : Pos := textEnd c.start c.text

namespace Expr

def first : Expr → Pos
  | ident id => id.pos
  | literal _ pos _ => pos
  | array _ lbrack _ => lbrack
  | object _ lcurly _ => lcurly
  | access value _ => value.first
  | index value _ _ _ => value.first
  | call callee _ _ _ => callee.first
  | unary _ opPos _ => opPos
  | binary _ _ left _ => left.first
  | paren _ lparen _ => lparen

def last : Expr → Pos
  | ident id => id.last
  | literal _ pos text => textEnd pos text
  | array _ _ rbrack => rbrack
  | object _ _ rcurly => rcurly
  | access _ name => name.last
  | index _ _ _ rbrack => rbrack
  | call _ _ _ rparen => rparen
  | unary _ _ value => value.last
  | binary _ _ _ right => right.last
  | paren _ _ rparen => rparen

end Expr

namespace Stmt

/-- The value of an attribute is no part of its span. -/
def first : Stmt → Pos
  | .attribute name _ => name.pos
  | .block _ namePos .. => namePos

def last : Stmt → Pos
  | .attribute name _ => name.last
  | .block _ _ _ _ _ rcurly => rcurly

end Stmt

namespace Node

def firstOf (first : α → Pos) (items : List α) : Pos := (items.head?.map first).getD .unplaced
def lastOf (last : α → Pos) (items : List α) : Pos := (items.getLast?.map last).getD .unplaced

/-- A file starts and ends with its statements. -/
def first : Node → Pos
  | file f => firstOf Stmt.first f.body
  | body stmts => firstOf Stmt.first stmts
  | commentGroup comments => firstOf Comment.start comments
  | comment c => c.start
  | stmt s => s.first
  | expr e => e.first

def last : Node → Pos
  | file f => lastOf Stmt.last f.body
  | body stmts => lastOf Stmt.last stmts
  | commentGroup comments => lastOf Comment.last comments
  | comment c => c.last
  | stmt s => s.last
  | expr e => e.last

def span (n : Node) : Span := ⟨n.first, n.last⟩

def spanOf? : Option Node → Span
  | none => .nowhere
  | some n => n.span

end Node
end River
