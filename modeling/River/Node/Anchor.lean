import River.Node.Extent
import River.Node.Order

/-! The anchors of a tree: the ranges of the source whose positions a tree stores, in the order in
which the syntax writes them. A tree is in source order if its anchors are. -/
namespace River

namespace Span

def point (p : Pos) : Span := ⟨p, p⟩

/-- Every range has a place and ends before the next one starts. -/
def Ascending : List Span → Prop
  | [] => True
  | [a] => a.isPlaced = true
  | a :: b :: ranges => a.isPlaced = true ∧ a.last < b.first ∧ Ascending (b :: ranges)

instance decidableAscending : (ranges : List Span) → Decidable (Ascending ranges)
  | [] => .isTrue trivial
  | [a] => inferInstanceAs (Decidable (a.isPlaced = true))
  | a :: b :: ranges =>
    have := decidableAscending (b :: ranges)
    inferInstanceAs (Decidable (a.isPlaced = true ∧ a.last < b.first ∧ Ascending (b :: ranges)))

/-- No byte is in both. -/
def Apart (a b : Span) : Prop := ∀ p, a.contains p = true → b.contains p = false

def Within (a b : Span) : Prop := b.first ≤ a.first ∧ a.last ≤ b.last

end Span

def Ident.span (id : Ident) : Span := ⟨id.pos, id.last⟩

def Comment.span (c : Comment) : Span := ⟨c.start, c.last⟩

mutual

def Expr.anchors : Expr → List Span
  | .ident id => [id.span]
  | .literal _ pos text => [⟨pos, textEnd pos text⟩]
  | .array es l r => .point l :: (anchorsAll es ++ [.point r])
  | .object fs l r => .point l :: (anchorsFields fs ++ [.point r])
  | .access e name => e.anchors ++ [name.span]
  | .index e i l r => e.anchors ++ .point l :: (i.anchors ++ [.point r])
  | .call e args l r => e.anchors ++ .point l :: (anchorsAll args ++ [.point r])
  | .unary _ opPos e => .point opPos :: e.anchors
  | .binary _ opPos a b => a.anchors ++ .point opPos :: b.anchors
  | .paren e l r => .point l :: (e.anchors ++ [.point r])

def Expr.anchorsAll : List Expr → List Span
  | [] => []
  | e :: es => e.anchors ++ anchorsAll es

def Expr.anchorsFields : List Field → List Span
  | [] => []
  | f :: fs => anchorsField f ++ anchorsFields fs

def Expr.anchorsField : Field → List Span
  | ⟨name, _, value⟩ => name.span :: value.anchors

end

mutual

def Stmt.anchors : Stmt → List Span
  | .attribute name value => name.span :: value.anchors
  | .block _ namePos _ body l r =>
    .point namePos :: .point l :: (anchorsAll body ++ [.point r])

def Stmt.anchorsAll : List Stmt → List Span
  | [] => []
  | s :: ss => s.anchors ++ anchorsAll ss

end

mutual

/-- The anchors that a statement's span is made of, which leaves out the values of attributes. -/
def Stmt.ownAnchors : Stmt → List Span
  | .attribute name _ => [name.span]
  | .block _ namePos _ body l r =>
    .point namePos :: .point l :: (ownAnchorsAll body ++ [.point r])

def Stmt.ownAnchorsAll : List Stmt → List Span
  | [] => []
  | s :: ss => s.ownAnchors ++ ownAnchorsAll ss

end

namespace Node

/-- All anchors below a node; the comments of a file are none of its own. -/
def anchors : Node → List Span
  | file f => Stmt.anchorsAll f.body
  | body stmts => Stmt.anchorsAll stmts
  | commentGroup comments => comments.map Comment.span
  | comment c => [c.span]
  | stmt s => s.anchors
  | expr e => e.anchors

/-- The anchors that the span of a node is made of. -/
def ownAnchors : Node → List Span
  | file f => Stmt.ownAnchorsAll f.body
  | body stmts => Stmt.ownAnchorsAll stmts
  | commentGroup comments => comments.map Comment.span
  | comment c => [c.span]
  | stmt s => s.ownAnchors
  | expr e => e.anchors

end Node

/-- The anchors are in order, and so are the comments of each group below. -/
structure Node.SourceOrdered (root : Node) : Prop where
  anchors : Span.Ascending root.anchors
  comments : ∀ g, .commentGroup g ∈ root.preorder → Span.Ascending (commentGroup g).anchors

/-- The groups of comments are apart from each other and from all anchors. -/
structure File.CommentsApart (f : File) : Prop where
  groups : (f.comments.map fun g => (Node.commentGroup g).span).Pairwise Span.Apart
  anchors : ∀ g ∈ f.comments, ∀ a ∈ (Node.file f).anchors, (Node.commentGroup g).span.Apart a

end River
