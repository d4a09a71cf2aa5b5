import River.Span
import River.Tree

/-! The shapes in which trees are exchanged. A shape has a type of contents; a record has fields in
a fixed order, a choice has named variants. -/
namespace River.Exchange

inductive Record where
  | file | comment | attribute | block | ident | literal | array | object | field
  | access | index | call | unary | binary | paren | span
  deriving DecidableEq

inductive Choice where
  | stmt | expr | token
  deriving DecidableEq

inductive Shape where
  | pos
  | text
  | flag
  | label
  | unit
  | blockName
  | list (item : Shape)
  | record (r : Record)
  | choice (c : Choice)
  deriving DecidableEq

abbrev Record.Content : Record → Type
  | .file => File
  | .comment => Comment
  | .attribute | .block => Stmt
  | .ident => Ident
  | .field => Field
  | .span => Span
  | .literal | .array | .object | .access | .index | .call | .unary | .binary | .paren => Expr

abbrev Choice.Content : Choice → Type
  | .stmt => Stmt
  | .expr => Expr
  | .token => Token

abbrev Shape.Content : Shape → Type
  | .pos => Pos
  | .text => String
  | .flag => Bool
  | .label => Option String
  | .unit => Unit
  | .blockName => BlockName
  | .list item => List item.Content
  | .record r => r.Content
  | .choice c => c.Content

/-- What a field that is absent holds, if it may be absent. -/
def Shape.absent? : (s : Shape) → Option s.Content
  | .pos => some Pos.unplaced
  | .label => some (none : Option String)
  | _ => none

abbrev Fields := List (String × Shape)

/-- The contents of fields, in their order. -/
abbrev Row : Fields → Type
  | [] => Unit
  | (_, s) :: fields => s.Content × Row fields

namespace Record

/-- The name under which a record is asked for. -/
def name : Record → String
  | .file => "File"
  | .comment => "Comment"
  | .attribute => "AttributeStmt"
  | .block => "BlockStmt"
  | .ident => "IdentifierExpr"
  | .literal => "LiteralExpr"
  | .array => "ArrayExpr"
  | .object => "ObjectExpr"
  | .field => "ObjectField"
  | .access => "AccessExpr"
  | .index => "IndexExpr"
  | .call => "CallExpr"
  | .unary => "UnaryExpr"
  | .binary => "BinaryExpr"
  | .paren => "ParenExpr"
  | .span => "Span"

abbrev stmts : Shape := .list (.choice .stmt)
abbrev exprs : Shape := .list (.choice .expr)
abbrev expr : Shape := .choice .expr

abbrev fields : Record → Fields
  | .file => [("name", .text), ("body", stmts), ("comments", .list (.list (.record .comment)))]
  | .comment => [("start", .pos), ("text", .text)]
  | .attribute => [("name", .record .ident), ("value", expr)]
  | .block => [("name", .blockName), ("name_pos", .pos), ("label", .label), ("body", stmts),
      ("lcurly", .pos), ("rcurly", .pos)]
  | .ident => [("name", .text), ("name_pos", .pos)]
  | .literal => [("kind", .choice .token), ("value_pos", .pos), ("value", .text)]
  | .array => [("elements", exprs), ("lbrack", .pos), ("rbrack", .pos)]
  | .object => [("fields", .list (.record .field)), ("lcurly", .pos), ("rcurly", .pos)]
  | .field => [("name", .record .ident), ("quoted", .flag), ("value", expr)]
  | .access => [("value", expr), ("name", .record .ident)]
  | .index => [("value", expr), ("index", expr), ("lbrack", .pos), ("rbrack", .pos)]
  | .call => [("value", expr), ("args", exprs), ("lparen", .pos), ("rparen", .pos)]
  | .unary => [("kind", .choice .token), ("kind_pos", .pos), ("value", expr)]
  | .binary => [("kind", .choice .token), ("kind_pos", .pos), ("left", expr), ("right", expr)]
  | .paren => [("inner", expr), ("lparen", .pos), ("rparen", .pos)]
  | .span => [("start", .pos), ("end", .pos)]

def build : (r : Record) → Row r.fields → r.Content
  | .file, (name, body, comments, ()) => ⟨name, body, comments⟩
  | .comment, (start, text, ()) => ⟨start, text⟩
  | .attribute, (name, value, ()) => Stmt.attribute name value
  | .block, (name, namePos, label, body, lcurly, rcurly, ()) =>
    Stmt.block name namePos label body lcurly rcurly
  | .ident, (name, pos, ()) => ⟨name, pos⟩
  | .literal, (kind, pos, text, ()) => Expr.literal kind pos text
  | .array, (elements, lbrack, rbrack, ()) => Expr.array elements lbrack rbrack
  | .object, (members, lcurly, rcurly, ()) => Expr.object members lcurly rcurly
  | .field, (name, quoted, value, ()) => ⟨name, quoted, value⟩
  | .access, (value, name, ()) => Expr.access value name
  | .index, (value, i, lbrack, rbrack, ()) => Expr.index value i lbrack rbrack
  | .call, (callee, args, lparen, rparen, ()) => Expr.call callee args lparen rparen
  | .unary, (op, opPos, value, ()) => Expr.unary op opPos value
  | .binary, (op, opPos, left, right, ()) => Expr.binary op opPos left right
  | .paren, (inner, lparen, rparen, ()) => Expr.paren inner lparen rparen
  | .span, (first, last, ()) => ⟨first, last⟩

def expectation (r : Record) : String := "struct " ++ r.name

end Record

/-- A variant of a choice: its name, what it carries, and what is made of that. -/
structure Variant (α : Type) where
  name : String
  payload : Shape
  make : payload.Content → α

def stmtVariants : List (Variant Stmt) := [
  ⟨"Attribute", .record .attribute, id⟩,
  ⟨"Block", .record .block, id⟩]

def exprVariants : List (Variant Expr) := [
  ⟨"Identifier", .record .ident, Expr.ident⟩,
  ⟨"Literal", .record .literal, id⟩,
  ⟨"Array", .record .array, id⟩,
  ⟨"Object", .record .object, id⟩,
  ⟨"Access", .record .access, id⟩,
  ⟨"Index", .record .index, id⟩,
  ⟨"Call", .record .call, id⟩,
  ⟨"Unary", .record .unary, id⟩,
  ⟨"Binary", .record .binary, id⟩,
  ⟨"Paren", .record .paren, id⟩]

def tokenVariants : List (Variant Token) := Token.all.map fun t => ⟨t.name, .unit, fun () => t⟩

def Choice.variants : (c : Choice) → List (Variant c.Content)
  | .stmt => stmtVariants
  | .expr => exprVariants
  | .token => tokenVariants

end River.Exchange
