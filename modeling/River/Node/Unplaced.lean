import River.Node

/-! Trees without their positions. Trees that differ in nothing but positions are the same without
them. -/
namespace River

def Ident.unplaced (id : Ident) : Ident := { id with pos := .unplaced }

mutual

def Expr.unplaced : Expr → Expr
  | .ident id => .ident id.unplaced
  | .literal kind _ text => .literal kind .unplaced text
  | .array es _ _ => .array (Expr.unplacedAll es) .unplaced .unplaced
  | .object fs _ _ => .object (Expr.unplacedFields fs) .unplaced .unplaced
  | .access e name => .access e.unplaced name.unplaced
  | .index e i _ _ => .index e.unplaced i.unplaced .unplaced .unplaced
  | .call e args _ _ => .call e.unplaced (Expr.unplacedAll args) .unplaced .unplaced
  | .unary op _ e => .unary op .unplaced e.unplaced
  | .binary op _ a b => .binary op .unplaced a.unplaced b.unplaced
  | .paren e _ _ => .paren e.unplaced .unplaced .unplaced

def Expr.unplacedAll : List Expr → List Expr
  | [] => []
  | e :: es => e.unplaced :: Expr.unplacedAll es

def Expr.unplacedFields : List Field → List Field
  | [] => []
  | f :: fs => f.unplaced :: Expr.unplacedFields fs

def Field.unplaced : Field → Field
  | ⟨name, quoted, value⟩ => ⟨name.unplaced, quoted, value.unplaced⟩

end

theorem Field.unplaced_eq (f : Field) :
    f.unplaced = ⟨f.name.unplaced, f.quoted, f.value.unplaced⟩ := by
  cases f
  rfl

mutual

def Stmt.unplaced : Stmt → Stmt
  | .attribute name value => .attribute name.unplaced value.unplaced
  | .block name _ label ss _ _ =>
    .block name .unplaced label (unplacedAll ss) .unplaced .unplaced

def Stmt.unplacedAll : List Stmt → List Stmt
  | [] => []
  | s :: ss => s.unplaced :: unplacedAll ss

end

def Comment.unplaced (c : Comment) : Comment := { c with start := .unplaced }

namespace Node

def unplaced : Node → Node
  | file f => file ⟨f.name, Stmt.unplacedAll f.body, f.comments.map (·.map Comment.unplaced)⟩
  | body ss => body (Stmt.unplacedAll ss)
  | commentGroup g => commentGroup (g.map Comment.unplaced)
  | comment c => comment c.unplaced
  | stmt s => stmt s.unplaced
  | expr e => expr e.unplaced

end Node
end River
