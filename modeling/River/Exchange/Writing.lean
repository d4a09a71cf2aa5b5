import River.Json.Printer
import River.Node
import River.Span

/-! The JSON values of trees. A statement and an expression stand in an object whose only key tells
which one it is; a position is its offset or null. -/
namespace River

def Pos.json : Pos → Json
  | .unplaced => .null
  | .byte offset _ => .number offset

def Span.json (s : Span) : Json := .object [("start", s.first.json), ("end", s.last.json)]

def Token.json (t : Token) : Json := .string t.name

def Ident.json (id : Ident) : Json := .object [("name", .string id.name), ("name_pos", id.pos.json)]

def Expr.tag : Expr → String
  | .ident _ => "Identifier"
  | .literal .. => "Literal"
  | .array .. => "Array"
  | .object .. => "Object"
  | .access .. => "Access"
  | .index .. => "Index"
  | .call .. => "Call"
  | .unary .. => "Unary"
  | .binary .. => "Binary"
  | .paren .. => "Paren"

mutual

def Expr.bareJson : Expr → Json
  | .ident id => id.json
  | .literal kind pos text =>
    .object [("kind", kind.json), ("value_pos", pos.json), ("value", .string text)]
  | .array elements l r =>
    .object [("elements", .array (jsonAll elements)), ("lbrack", l.json), ("rbrack", r.json)]
  | .object fields l r =>
    .object [("fields", .array (jsonFields fields)), ("lcurly", l.json), ("rcurly", r.json)]
  | .access value name =>
    .object [("value", .object [(value.tag, value.bareJson)]), ("name", name.json)]
  | .index value i l r =>
    .object [("value", .object [(value.tag, value.bareJson)]),
      ("index", .object [(i.tag, i.bareJson)]), ("lbrack", l.json), ("rbrack", r.json)]
  | .call callee args l r =>
    .object [("value", .object [(callee.tag, callee.bareJson)]), ("args", .array (jsonAll args)),
      ("lparen", l.json), ("rparen", r.json)]
  | .unary op opPos value =>
    .object [("kind", op.json), ("kind_pos", opPos.json),
      ("value", .object [(value.tag, value.bareJson)])]
  | .binary op opPos left right =>
    .object [("kind", op.json), ("kind_pos", opPos.json),
      ("left", .object [(left.tag, left.bareJson)]),
      ("right", .object [(right.tag, right.bareJson)])]
  | .paren inner l r =>
    .object [("inner", .object [(inner.tag, inner.bareJson)]), ("lparen", l.json),
      ("rparen", r.json)]

def Expr.jsonAll : List Expr → List Json
  | [] => []
  | e :: es => .object [(e.tag, e.bareJson)] :: jsonAll es

def Expr.jsonFields : List Field → List Json
  | [] => []
  | f :: fs => fieldJson f :: jsonFields fs

def Expr.fieldJson : Field → Json
  | ⟨name, quoted, value⟩ =>
    .object [("name", name.json), ("quoted", .bool quoted),
      ("value", .object [(value.tag, value.bareJson)])]

end

def Expr.json (e : Expr) : Json := .object [(e.tag, e.bareJson)]

def Field.json (f : Field) : Json := Expr.fieldJson f

def BlockName.json (n : BlockName) : Json := .array (n.parts.map .string)

def labelJson : Option String → Json
  | none => .null
  | some label => .string label

def Stmt.tag : Stmt → String
  | .attribute .. => "Attribute"
  | .block .. => "Block"

mutual

def Stmt.bareJson : Stmt → Json
  | .attribute name value => .object [("name", name.json), ("value", value.json)]
  | .block name namePos label body l r =>
    .object [("name", name.json), ("name_pos", namePos.json), ("label", labelJson label),
      ("body", .array (jsonAll body)), ("lcurly", l.json), ("rcurly", r.json)]

def Stmt.jsonAll : List Stmt → List Json
  | [] => []
  | s :: ss => .object [(s.tag, s.bareJson)] :: jsonAll ss

end

def Stmt.json (s : Stmt) : Json := .object [(s.tag, s.bareJson)]

def Comment.json (c : Comment) : Json :=
  .object [("start", c.start.json), ("text", .string c.text)]

def groupJson (group : List Comment) : Json := .array (group.map Comment.json)

def bodyJson (stmts : List Stmt) : Json := .array (Stmt.jsonAll stmts)

def File.json (f : File) : Json :=
  .object [("name", .string f.name), ("body", bodyJson f.body),
    ("comments", .array (f.comments.map groupJson))]

/-- A node on its own needs no tag. -/
def Node.json : Node → Json
  | .file f => f.json
  | .body stmts => bodyJson stmts
  | .commentGroup comments => groupJson comments
  | .comment c => c.json
  | .stmt s => s.bareJson
  | .expr e => e.bareJson

/-- A node as it stands in a tree, where statements and expressions are tagged. -/
def Node.taggedJson : Node → Json
  | .stmt s => s.json
  | .expr e => e.json
  | n => n.json

end River
