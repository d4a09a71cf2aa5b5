import River.Node.Extent
import River.Text.Quoted

/-! What an outline shows: the nodes of a tree in the order of a walk, and before the name of each
member of an object a heading of its own. -/
namespace River.Outline

inductive Item where
  | node (n : Node)
  | field (f : Field)
  deriving DecidableEq

structure Entry where
  depth : Nat
  item : Item
  deriving DecidableEq

def nodeAt (depth : Nat) (n : Node) : Entry := ⟨depth, .node n⟩

mutual

def expr (depth : Nat) : Expr → List Entry
  | .ident id => [nodeAt depth (.ident id)]
  | .literal k p t => [nodeAt depth (.expr (.literal k p t))]
  | .array es l r => nodeAt depth (.expr (.array es l r)) :: exprs (depth + 1) es
  | .object fs l r => nodeAt depth (.expr (.object fs l r)) :: fields (depth + 1) fs
  | .access e name =>
    nodeAt depth (.expr (.access e name)) ::
      (expr (depth + 1) e ++ [nodeAt (depth + 1) (.ident name)])
  | .index e i l r =>
    nodeAt depth (.expr (.index e i l r)) :: (expr (depth + 1) e ++ expr (depth + 1) i)
  | .call e args l r =>
    nodeAt depth (.expr (.call e args l r)) :: (expr (depth + 1) e ++ exprs (depth + 1) args)
  | .unary o p e => nodeAt depth (.expr (.unary o p e)) :: expr (depth + 1) e
  | .binary o p a b =>
    nodeAt depth (.expr (.binary o p a b)) :: (expr (depth + 1) a ++ expr (depth + 1) b)
  | .paren e l r => nodeAt depth (.expr (.paren e l r)) :: expr (depth + 1) e

def exprs (depth : Nat) : List Expr → List Entry
  | [] => []
  | e :: es => expr depth e ++ exprs depth es

def fields (depth : Nat) : List Field → List Entry
  | [] => []
  | f :: fs => field depth f ++ fields depth fs

/-- A member's name and value stand one level below its heading. -/
def field (depth : Nat) : Field → List Entry
  | ⟨name, quoted, value⟩ =>
    ⟨depth, .field ⟨name, quoted, value⟩⟩ ::
      nodeAt (depth + 1) (.ident name) :: expr (depth + 1) value

end

mutual

def stmt (depth : Nat) : Stmt → List Entry
  | .attribute name value =>
    nodeAt depth (.stmt (.attribute name value)) ::
      nodeAt (depth + 1) (.ident name) :: expr (depth + 1) value
  | .block n p t ss l r =>
    nodeAt depth (.stmt (.block n p t ss l r)) ::
      nodeAt (depth + 1) (.body ss) :: stmts (depth + 2) ss

def stmts (depth : Nat) : List Stmt → List Entry
  | [] => []
  | s :: ss => stmt depth s ++ stmts depth ss

end

def group (depth : Nat) (comments : List Comment) : List Entry :=
  nodeAt depth (.commentGroup comments) :: comments.map fun c => nodeAt (depth + 1) (.comment c)

/-- Only the comments of a file can be left out. -/
def entries (comments : Bool) (depth : Nat) : Node → List Entry
  | .file f =>
    nodeAt depth (.file f) :: nodeAt (depth + 1) (.body f.body) ::
      (stmts (depth + 2) f.body ++
        if comments then f.comments.flatMap (group (depth + 1)) else [])
  | .body ss => nodeAt depth (.body ss) :: stmts (depth + 1) ss
  | .commentGroup g => group depth g
  | .comment c => [nodeAt depth (.comment c)]
  | .stmt s => stmt depth s
  | .expr e => expr depth e

def Item.isNode : Item → Bool
  | .node _ => true
  | .field _ => false

def Item.heading : Item → String
  | .node n => n.kind.name
  | .field _ => "ObjectField"

/-- Names and source texts stand as they are; what may hold anything is quoted. -/
def nodeDetail : Node → String
  | .file f => Text.quoted f.name
  | .comment c => Text.quoted c.text
  | .stmt (.block name _ (some label) ..) => name.text ++ " " ++ Text.quoted label
  | .stmt (.block name _ none ..) => name.text
  | .expr (.ident id) => id.name
  | .expr (.literal kind _ text) => kind.symbol ++ " " ++ text
  | .expr (.unary op _ _) => op.symbol
  | .expr (.binary op _ _ _) => op.symbol
  | _ => ""

def Item.detail : Item → String
  | .node n => nodeDetail n
  | .field f => if f.quoted then Text.quoted f.name.name else f.name.name

def Item.span? : Item → Option Span
  | .node n => some n.span
  | .field _ => none

end River.Outline
