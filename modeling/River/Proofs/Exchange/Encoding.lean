import River.Exchange.Reading
import River.Exchange.Writing

/-! The JSON value of what a shape holds. A record is written as its fields in their order, a
choice as the variant that makes it. -/
namespace River.Exchange

def Record.json : (r : Record) → r.Content → Json
  | .file, f => File.json f
  | .comment, c => Comment.json c
  | .attribute, s | .block, s => Stmt.bareJson s
  | .ident, id => Ident.json id
  | .field, f => Field.json f
  | .span, s => Span.json s
  | .literal, e | .array, e | .object, e | .access, e | .index, e | .call, e | .unary, e
  | .binary, e | .paren, e => Expr.bareJson e

def Choice.json : (c : Choice) → c.Content → Json
  | .stmt, s => Stmt.json s
  | .expr, e => Expr.json e
  | .token, t => Token.json t

def Shape.json : (s : Shape) → s.Content → Json
  | .pos, p => Pos.json p
  | .text, s => .string s
  | .flag, b => .bool b
  | .label, l => labelJson l
  | .unit, _ => .null
  | .blockName, n => BlockName.json n
  | .list item, vs => .array (vs.map item.json)
  | .record r, v => r.json v
  | .choice c, v => c.json v

/-- A field with what it holds. -/
structure Entry where
  name : String
  shape : Shape
  value : shape.Content

def Entry.member (e : Entry) : String × Json := (e.name, e.shape.json e.value)

def Row.entries : (fields : Fields) → Row fields → List Entry
  | [], () => []
  | (name, s) :: fields, (v, row) => ⟨name, s, v⟩ :: entries fields row

theorem Row.names_entries (fields : Fields) (row : Row fields) :
    (Row.entries fields row).map Entry.name = fields.map Prod.fst := by
  induction fields with
  | nil => rfl
  | cons field fields ih => simp [entries, ih]

theorem Row.name_mem {fields : Fields} {row : Row fields} (member : e ∈ Row.entries fields row) :
    e.name ∈ fields.map Prod.fst := by
  rw [← Row.names_entries fields row]
  exact List.mem_map_of_mem member

theorem Record.names_distinct (r : Record) : (r.fields.map Prod.fst).Nodup := by
  cases r <;> decide

theorem jsonAll_exprs (es : List Expr) : Expr.jsonAll es = es.map Expr.json := by
  induction es with
  | nil => rfl
  | cons e es ih => simp [Expr.jsonAll, Expr.json, ih]

theorem jsonFields_eq (fs : List Field) : Expr.jsonFields fs = fs.map Field.json := by
  induction fs with
  | nil => rfl
  | cons f fs ih => simp [Expr.jsonFields, Field.json, ih]

theorem jsonAll_stmts (ss : List Stmt) : Stmt.jsonAll ss = ss.map Stmt.json := by
  induction ss with
  | nil => rfl
  | cons s ss ih => simp [Stmt.jsonAll, Stmt.json, ih]

theorem Record.json_build (r : Record) (row : Row r.fields) :
    r.json (r.build row) = .object ((Row.entries r.fields row).map Entry.member) := by
  cases r <;>
    simp only [Record.json, build, Row.entries, Entry.member, List.map_cons, List.map_nil,
      Shape.json, Choice.json, File.json, bodyJson, Comment.json, Ident.json, Field.json,
      Span.json, Expr.fieldJson, Expr.bareJson, Stmt.bareJson, Expr.json, jsonAll_exprs,
      jsonFields_eq, jsonAll_stmts] <;> rfl

/-- What can be written in the shape. The content of a record is a statement or an expression of
any kind, the record one of its own kind. -/
def Shape.Fits : (s : Shape) → s.Content → Prop
  | .list item, vs => ∀ v ∈ vs, item.Fits v
  | .record r, v => ∃ row, r.build row = v
  | _, _ => True

theorem Record.fits_field (r : Record) : ∀ field ∈ r.fields, ∀ v, field.2.Fits v := by
  have ident (id : Ident) : ∃ row, Record.build .ident row = id := ⟨(id.name, id.pos, ()), rfl⟩
  have comment (c : Comment) : ∃ row, Record.build .comment row = c := ⟨(c.start, c.text, ()), rfl⟩
  have field (f : Field) : ∃ row, Record.build .field row = f := by
    cases f with
    | mk name quoted value => exact ⟨(name, quoted, value, ()), rfl⟩
  cases r <;> simp [fields, Shape.Fits, ident, comment, field]

theorem Row.fits_entry (fields : Fields) (row : Row fields)
    (fits : ∀ field ∈ fields, ∀ v, field.2.Fits v) :
    ∀ e ∈ Row.entries fields row, e.shape.Fits e.value := by
  induction fields with
  | nil => simp [entries]
  | cons field fields ih =>
    intro e member
    rcases List.mem_cons.mp member with rfl | member
    · exact fits field (by simp) _
    · exact ih row.2 (fun f h => fits f (by simp [h])) e member

theorem itemsNesting_le {json : α → Json} {vs : List α} :
    Json.itemsNesting (vs.map json) ≤ depth ↔ ∀ v ∈ vs, (json v).nesting ≤ depth := by
  induction vs with
  | nil => simp [Json.itemsNesting]
  | cons v vs ih => rw [List.map_cons, Json.itemsNesting, Nat.max_le, ih, List.forall_mem_cons]

theorem membersNesting_le {es : List Entry} :
    Json.membersNesting (es.map Entry.member) ≤ depth ↔
      ∀ e ∈ es, (e.shape.json e.value).nesting ≤ depth := by
  induction es with
  | nil => simp [Json.membersNesting]
  | cons e es ih =>
    rw [List.map_cons, Entry.member, Json.membersNesting, Json.memberNesting, Nat.max_le, ih,
      List.forall_mem_cons]

/-- A choice is written as the name of a variant that carries nothing, or as an object with what
the variant carries. -/
theorem Choice.written (c : Choice) (v : c.Content) :
    (∃ name make, c.variants.find? (·.name == name) = some ⟨name, .unit, make⟩ ∧ make () = v ∧
      c.json v = .string name) ∨
    ∃ variant w, c.variants.find? (·.name == variant.name) = some variant ∧ variant.make w = v ∧
      variant.payload.Fits w ∧ c.json v = .object [(variant.name, variant.payload.json w)] := by
  cases c with
  | stmt =>
    right
    rcases v with ⟨name, value⟩ | ⟨name, namePos, label, body, l, r⟩
    · exact ⟨⟨"Attribute", .record .attribute, id⟩, .attribute name value, rfl, rfl,
        ⟨(name, value, ()), rfl⟩, rfl⟩
    · exact ⟨⟨"Block", .record .block, id⟩, .block name namePos label body l r, rfl, rfl,
        ⟨(name, namePos, label, body, l, r, ()), rfl⟩, rfl⟩
  | expr =>
    right
    cases v with
    | ident id =>
      exact ⟨⟨"Identifier", .record .ident, Expr.ident⟩, id, rfl, rfl, ⟨(id.name, id.pos, ()), rfl⟩,
        rfl⟩
    | literal kind pos text =>
      exact ⟨⟨"Literal", .record .literal, id⟩, .literal kind pos text, rfl, rfl,
        ⟨(kind, pos, text, ()), rfl⟩, rfl⟩
    | array es l r =>
      exact ⟨⟨"Array", .record .array, id⟩, .array es l r, rfl, rfl, ⟨(es, l, r, ()), rfl⟩, rfl⟩
    | object fs l r =>
      exact ⟨⟨"Object", .record .object, id⟩, .object fs l r, rfl, rfl, ⟨(fs, l, r, ()), rfl⟩, rfl⟩
    | access value name =>
      exact ⟨⟨"Access", .record .access, id⟩, .access value name, rfl, rfl, ⟨(value, name, ()), rfl⟩,
        rfl⟩
    | index value i l r =>
      exact ⟨⟨"Index", .record .index, id⟩, .index value i l r, rfl, rfl,
        ⟨(value, i, l, r, ()), rfl⟩, rfl⟩
    | call callee args l r =>
      exact ⟨⟨"Call", .record .call, id⟩, .call callee args l r, rfl, rfl,
        ⟨(callee, args, l, r, ()), rfl⟩, rfl⟩
    | unary op opPos value =>
      exact ⟨⟨"Unary", .record .unary, id⟩, .unary op opPos value, rfl, rfl,
        ⟨(op, opPos, value, ()), rfl⟩, rfl⟩
    | binary op opPos left right =>
      exact ⟨⟨"Binary", .record .binary, id⟩, .binary op opPos left right, rfl, rfl,
        ⟨(op, opPos, left, right, ()), rfl⟩, rfl⟩
    | paren inner l r =>
      exact ⟨⟨"Paren", .record .paren, id⟩, .paren inner l r, rfl, rfl, ⟨(inner, l, r, ()), rfl⟩, rfl⟩
  | token =>
    left
    refine ⟨v.name, fun () => v, ?_, rfl, rfl⟩
    cases v <;> rfl

end River.Exchange
