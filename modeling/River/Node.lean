import River.Tree.Equality

/-! Every part of a tree that stands on its own is a node. The fields of an object are none: their
names and values are. -/
namespace River

inductive Kind where
  | file | body | commentGroup | comment | attribute | block
  | ident | literal | array | object | access | index | call | unary | binary | paren
  deriving DecidableEq

namespace Kind

def name : Kind → String
  | .file => "File"
  | .body => "Body"
  | .commentGroup => "CommentGroup"
  | .comment => "Comment"
  | .attribute => "AttributeStmt"
  | .block => "BlockStmt"
  | .ident => "IdentifierExpr"
  | .literal => "LiteralExpr"
  | .array => "ArrayExpr"
  | .object => "ObjectExpr"
  | .access => "AccessExpr"
  | .index => "IndexExpr"
  | .call => "CallExpr"
  | .unary => "UnaryExpr"
  | .binary => "BinaryExpr"
  | .paren => "ParenExpr"

def isStmt : Kind → Bool
  | .attribute | .block => true
  | _ => false

def isExpr : Kind → Bool
  | .ident | .literal | .array | .object | .access | .index | .call | .unary | .binary
  | .paren => true
  | _ => false

end Kind

inductive Node where
  | file (f : File)
  | body (stmts : List Stmt)
  | commentGroup (comments : List Comment)
  | comment (c : Comment)
  | stmt (s : Stmt)
  | expr (e : Expr)
  deriving DecidableEq

def Expr.kind : Expr → Kind
  | .ident _ => .ident
  | .literal .. => .literal
  | .array .. => .array
  | .object .. => .object
  | .access .. => .access
  | .index .. => .index
  | .call .. => .call
  | .unary .. => .unary
  | .binary .. => .binary
  | .paren .. => .paren

def Stmt.kind : Stmt → Kind
  | .attribute .. => .attribute
  | .block .. => .block

namespace Node

def kind : Node → Kind
  | file _ => .file
  | body _ => .body
  | commentGroup _ => .commentGroup
  | comment _ => .comment
  | stmt s => s.kind
  | expr e => e.kind

abbrev ident (id : Ident) : Node := expr (.ident id)

/-- The nodes directly below, in the order of the source; the comments of a file come last. -/
def children : Node → List Node
  | file f => body f.body :: f.comments.map commentGroup
  | body stmts => stmts.map stmt
  | commentGroup comments => comments.map comment
  | comment _ => []
  | stmt (.attribute name value) => [ident name, expr value]
  | stmt (.block _ _ _ stmts _ _) => [body stmts]
  | expr (.ident _) => []
  | expr (.literal ..) => []
  | expr (.array elements _ _) => elements.map expr
  | expr (.object fields _ _) => fields.flatMap fun f => [ident f.name, expr f.value]
  | expr (.access value name) => [expr value, ident name]
  | expr (.index value i _ _) => [expr value, expr i]
  | expr (.call callee args _ _) => expr callee :: args.map expr
  | expr (.unary _ _ value) => [expr value]
  | expr (.binary _ _ left right) => [expr left, expr right]
  | expr (.paren inner _ _) => [expr inner]

/-- The name or the text that tells nodes of a kind apart. -/
def caption : Node → String
  | file f => f.name
  | comment c => c.text
  | stmt (.block name ..) => name.text
  | expr (.ident id) => id.name
  | expr (.literal _ _ text) => text
  | expr (.unary op _ _) => op.symbol
  | expr (.binary op _ _ _) => op.symbol
  | _ => ""

theorem sizeOf_expr_pos (e : Expr) : 0 < sizeOf e := by
  cases e <;> simp only [Expr.ident.sizeOf_spec, Expr.literal.sizeOf_spec, Expr.array.sizeOf_spec,
    Expr.object.sizeOf_spec, Expr.access.sizeOf_spec, Expr.index.sizeOf_spec,
    Expr.call.sizeOf_spec, Expr.unary.sizeOf_spec, Expr.binary.sizeOf_spec,
    Expr.paren.sizeOf_spec] <;> omega

theorem sizeOf_child_expr {c : Node} {e : Expr} (h : c ∈ (expr e).children) :
    sizeOf c < sizeOf (expr e) := by
  cases e with
  | ident | literal => cases h
  | array elements =>
    obtain ⟨e, he, rfl⟩ := List.mem_map.1 h
    have := List.sizeOf_lt_of_mem he
    simp only [expr.sizeOf_spec, Expr.array.sizeOf_spec]; omega
  | object fields =>
    obtain ⟨⟨name, quoted, value⟩, hf, h⟩ := List.mem_flatMap.1 h
    have := List.sizeOf_lt_of_mem hf
    simp only [Field.mk.sizeOf_spec] at this
    have := sizeOf_expr_pos value
    simp only [List.mem_cons, List.not_mem_nil, or_false] at h
    rcases h with rfl | rfl <;>
      simp only [expr.sizeOf_spec, Expr.object.sizeOf_spec, Expr.ident.sizeOf_spec] <;> omega
  | access value name =>
    have := sizeOf_expr_pos value
    simp only [children, List.mem_cons, List.not_mem_nil, or_false] at h
    rcases h with rfl | rfl <;>
      simp only [expr.sizeOf_spec, Expr.access.sizeOf_spec, Expr.ident.sizeOf_spec] <;> omega
  | index value i =>
    simp only [children, List.mem_cons, List.not_mem_nil, or_false] at h
    rcases h with rfl | rfl <;> simp only [expr.sizeOf_spec, Expr.index.sizeOf_spec] <;> omega
  | call callee args =>
    rcases List.mem_cons.1 h with rfl | h
    · simp only [expr.sizeOf_spec, Expr.call.sizeOf_spec]; omega
    · obtain ⟨e, he, rfl⟩ := List.mem_map.1 h
      have := List.sizeOf_lt_of_mem he
      simp only [expr.sizeOf_spec, Expr.call.sizeOf_spec]; omega
  | unary op opPos value =>
    cases List.mem_singleton.1 h
    simp only [expr.sizeOf_spec, Expr.unary.sizeOf_spec]; omega
  | binary op opPos left right =>
    simp only [children, List.mem_cons, List.not_mem_nil, or_false] at h
    rcases h with rfl | rfl <;> simp only [expr.sizeOf_spec, Expr.binary.sizeOf_spec] <;> omega
  | paren inner =>
    cases List.mem_singleton.1 h
    simp only [expr.sizeOf_spec, Expr.paren.sizeOf_spec]; omega

theorem sizeOf_child_stmt {c : Node} {s : Stmt} (h : c ∈ (stmt s).children) :
    sizeOf c < sizeOf (stmt s) := by
  rcases s with ⟨name, value⟩ | ⟨name, namePos, label, stmts, lcurly, rcurly⟩
  · have := sizeOf_expr_pos value
    simp only [children, List.mem_cons, List.not_mem_nil, or_false] at h
    rcases h with rfl | rfl <;>
      simp only [expr.sizeOf_spec, stmt.sizeOf_spec, Stmt.attribute.sizeOf_spec,
        Expr.ident.sizeOf_spec] <;> omega
  · cases List.mem_singleton.1 h
    simp only [body.sizeOf_spec, stmt.sizeOf_spec, Stmt.block.sizeOf_spec]; omega

/-- Trees are finite: a child is smaller than its parent. -/
theorem sizeOf_child {c n : Node} (h : c ∈ n.children) : sizeOf c < sizeOf n := by
  cases n with
  | file f =>
    obtain ⟨name, stmts, comments⟩ := f
    rcases List.mem_cons.1 h with rfl | h
    · simp only [file.sizeOf_spec, body.sizeOf_spec, File.mk.sizeOf_spec]; omega
    · obtain ⟨g, hg, rfl⟩ := List.mem_map.1 h
      have : sizeOf g < sizeOf comments := List.sizeOf_lt_of_mem hg
      simp only [file.sizeOf_spec, commentGroup.sizeOf_spec, File.mk.sizeOf_spec]; omega
  | body stmts =>
    obtain ⟨s, hs, rfl⟩ := List.mem_map.1 h
    have := List.sizeOf_lt_of_mem hs
    simp only [body.sizeOf_spec, stmt.sizeOf_spec]; omega
  | commentGroup comments =>
    obtain ⟨c, hc, rfl⟩ := List.mem_map.1 h
    have := List.sizeOf_lt_of_mem hc
    simp only [commentGroup.sizeOf_spec, comment.sizeOf_spec]; omega
  | comment => cases h
  | stmt => exact sizeOf_child_stmt h
  | expr => exact sizeOf_child_expr h

end Node
end River
