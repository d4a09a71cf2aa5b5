import River.Outline.Entry

/-! What can be told from an outline that shows positions and comments: a tree of labels with the
spans of nodes. It holds no positions of delimiters and no parts of the names of blocks. -/
namespace River.Outline

/-- A kind with the texts and tokens that belong to it; a block and a member have a title instead,
which is all that is shown of their names. -/
inductive Label where
  | file (name : String)
  | body
  | commentGroup
  | comment (text : String)
  | attribute
  | block (title : String)
  | ident (name : String)
  | literal (kind : Token) (text : String)
  | array
  | object
  | access
  | index
  | call
  | unary (op : Token)
  | binary (op : Token)
  | paren
  | member (title : String)
  deriving DecidableEq

/-- A member of an object has no span. -/
inductive Sketch where
  | mk (label : Label) (span? : Option Span) (below : List Sketch)

def exprLabel : Expr → Label
  | .ident id => .ident id.name
  | .literal kind _ text => .literal kind text
  | .array .. => .array
  | .object .. => .object
  | .access .. => .access
  | .index .. => .index
  | .call .. => .call
  | .unary op .. => .unary op
  | .binary op .. => .binary op
  | .paren .. => .paren

def Item.label : Item → Label
  | .node (.file f) => .file f.name
  | .node (.body _) => .body
  | .node (.commentGroup _) => .commentGroup
  | .node (.comment c) => .comment c.text
  | .node (.stmt (.attribute ..)) => .attribute
  | .node (.stmt (.block name namePos label body l r)) =>
    .block (nodeDetail (.stmt (.block name namePos label body l r)))
  | .node (.expr e) => exprLabel e
  | .field f => .member (Item.field f).detail

/-- The names and values of an object are grouped by its members. -/
def sketch (n : Node) : Sketch :=
  match n with
  | .expr (.object fs l r) =>
    .mk .object (some (Node.expr (.object fs l r)).span) <| fs.attach.map fun f =>
      .mk (Item.field f.val).label none [sketch (.ident f.val.name), sketch (.expr f.val.value)]
  | n => .mk (Item.node n).label (some n.span) <| n.children.attach.map fun c => sketch c.val
termination_by sizeOf n
decreasing_by
  · exact Node.sizeOf_child (List.mem_flatMap.2 ⟨f.val, f.property, by simp⟩)
  · exact Node.sizeOf_child (List.mem_flatMap.2 ⟨f.val, f.property, by simp⟩)
  · exact Node.sizeOf_child c.property

structure Row where
  depth : Nat
  label : Label
  span? : Option Span
  deriving DecidableEq

mutual

def Sketch.rows (depth : Nat) : Sketch → List Row
  | .mk label span? below => ⟨depth, label, span?⟩ :: rowsAll (depth + 1) below

def Sketch.rowsAll (depth : Nat) : List Sketch → List Row
  | [] => []
  | s :: ss => s.rows depth ++ rowsAll depth ss

end

end River.Outline
