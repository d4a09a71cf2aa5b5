import River.Node

/-! The nodes of a tree as lists, by recursion on the tree itself: in `preorder` a node stands
before what is below it, in `postorder` after it. -/
namespace River

mutual

def Expr.preorder : Expr → List Node
  | .ident id => [.ident id]
  | .literal k p t => [.expr (.literal k p t)]
  | .array es l r => .expr (.array es l r) :: preorderAll es
  | .object fs l r => .expr (.object fs l r) :: preorderFields fs
  | .access e name => .expr (.access e name) :: (e.preorder ++ [.ident name])
  | .index e i l r => .expr (.index e i l r) :: (e.preorder ++ i.preorder)
  | .call e args l r => .expr (.call e args l r) :: (e.preorder ++ preorderAll args)
  | .unary o p e => .expr (.unary o p e) :: e.preorder
  | .binary o p a b => .expr (.binary o p a b) :: (a.preorder ++ b.preorder)
  | .paren e l r => .expr (.paren e l r) :: e.preorder

def Expr.preorderAll : List Expr → List Node
  | [] => []
  | e :: es => e.preorder ++ preorderAll es

def Expr.preorderFields : List Field → List Node
  | [] => []
  | f :: fs => preorderField f ++ preorderFields fs

def Expr.preorderField : Field → List Node
  | ⟨name, _, value⟩ => .ident name :: value.preorder

end

mutual

def Expr.postorder : Expr → List Node
  | .ident id => [.ident id]
  | .literal k p t => [.expr (.literal k p t)]
  | .array es l r => postorderAll es ++ [.expr (.array es l r)]
  | .object fs l r => postorderFields fs ++ [.expr (.object fs l r)]
  | .access e name => e.postorder ++ [.ident name, .expr (.access e name)]
  | .index e i l r => e.postorder ++ i.postorder ++ [.expr (.index e i l r)]
  | .call e args l r => e.postorder ++ postorderAll args ++ [.expr (.call e args l r)]
  | .unary o p e => e.postorder ++ [.expr (.unary o p e)]
  | .binary o p a b => a.postorder ++ b.postorder ++ [.expr (.binary o p a b)]
  | .paren e l r => e.postorder ++ [.expr (.paren e l r)]

def Expr.postorderAll : List Expr → List Node
  | [] => []
  | e :: es => e.postorder ++ postorderAll es

def Expr.postorderFields : List Field → List Node
  | [] => []
  | f :: fs => postorderField f ++ postorderFields fs

def Expr.postorderField : Field → List Node
  | ⟨name, _, value⟩ => .ident name :: value.postorder

end

mutual

def Stmt.preorder : Stmt → List Node
  | .attribute name value => .stmt (.attribute name value) :: .ident name :: value.preorder
  | .block n p t ss l r => .stmt (.block n p t ss l r) :: .body ss :: preorderAll ss

def Stmt.preorderAll : List Stmt → List Node
  | [] => []
  | s :: ss => s.preorder ++ preorderAll ss

end

mutual

def Stmt.postorder : Stmt → List Node
  | .attribute name value => .ident name :: (value.postorder ++ [.stmt (.attribute name value)])
  | .block n p t ss l r => postorderAll ss ++ [.body ss, .stmt (.block n p t ss l r)]

def Stmt.postorderAll : List Stmt → List Node
  | [] => []
  | s :: ss => s.postorder ++ postorderAll ss

end

namespace Node

def groupPreorder (group : List Comment) : List Node := commentGroup group :: group.map comment
def groupPostorder (group : List Comment) : List Node := group.map comment ++ [commentGroup group]

def preorder : Node → List Node
  | file f =>
    file f :: body f.body :: (Stmt.preorderAll f.body ++ f.comments.flatMap groupPreorder)
  | body ss => body ss :: Stmt.preorderAll ss
  | commentGroup group => groupPreorder group
  | comment c => [comment c]
  | stmt s => s.preorder
  | expr e => e.preorder

def postorder : Node → List Node
  | file f =>
    Stmt.postorderAll f.body ++ [body f.body] ++ f.comments.flatMap groupPostorder ++ [file f]
  | body ss => Stmt.postorderAll ss ++ [body ss]
  | commentGroup group => groupPostorder group
  | comment c => [comment c]
  | stmt s => s.postorder
  | expr e => e.postorder

end Node
end River
