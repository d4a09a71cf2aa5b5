import Mathlib.Data.List.Basic
import River.Outline
import River.Proofs.Node.Preorder

/-! A printer writes the entries of a node one after the other and counts those that are nodes. So
its text is the text of the entries, and nothing else depends on how it goes through the tree. -/
namespace River.Outline

theorem of_kind_object {n : Node} (object : n.kind = .object) :
    ∃ fs l r, n = .expr (.object fs l r) := by
  rcases n with f | ss | g | c | s | e
  case stmt => cases s <;> cases object
  case expr => cases e <;> cases object; exact ⟨_, _, _, rfl⟩
  all_goals cases object

theorem name_child {fs : List Field} (member : f ∈ fs) (l r : Pos) :
    Node.ident f.name ∈ (Node.expr (.object fs l r)).children :=
  List.mem_flatMap.mpr ⟨f, member, by simp⟩

theorem value_child {fs : List Field} (member : f ∈ fs) (l r : Pos) :
    Node.expr f.value ∈ (Node.expr (.object fs l r)).children :=
  List.mem_flatMap.mpr ⟨f, member, by simp⟩

theorem exprs_eq (depth : Nat) (es : List Expr) : exprs depth es = es.flatMap (expr depth) := by
  induction es with
  | nil => rfl
  | cons e es ih => simp [exprs, ih]

theorem fields_eq (depth : Nat) (fs : List Field) : fields depth fs = fs.flatMap (field depth) := by
  induction fs with
  | nil => rfl
  | cons f fs ih => simp [fields, ih]

theorem stmts_eq (depth : Nat) (ss : List Stmt) : stmts depth ss = ss.flatMap (stmt depth) := by
  induction ss with
  | nil => rfl
  | cons s ss ih => simp [stmts, ih]

def memberEntries (comments : Bool) (depth : Nat) (f : Field) : List Entry :=
  ⟨depth, .field f⟩ :: (entries comments (depth + 1) (.ident f.name) ++
    entries comments (depth + 1) (.expr f.value))

theorem field_eq (comments : Bool) (depth : Nat) (f : Field) :
    field depth f = memberEntries comments depth f := by
  cases f
  rfl

theorem entries_object (comments : Bool) (depth : Nat) (fs : List Field) (l r : Pos) :
    entries comments depth (.expr (.object fs l r)) =
      nodeAt depth (.expr (.object fs l r)) :: fs.flatMap (memberEntries comments (depth + 1)) := by
  have same : field (depth + 1) = memberEntries comments (depth + 1) := funext (field_eq comments _)
  simp only [entries, expr, fields_eq, same]

def shownChildren (comments : Bool) (n : Node) : List Node :=
  n.children.filter fun c => !(c.kind = .commentGroup && !comments)

theorem shownChildren_file (comments : Bool) (f : File) :
    shownChildren comments (.file f) =
      .body f.body :: if comments then f.comments.map .commentGroup else [] := by
  cases comments <;> simp [shownChildren, Node.children, Node.kind]

/-- Only a file has groups of comments below it. -/
theorem kind_ne_commentGroup {c n : Node} (below : c ∈ n.children) (other : n.kind ≠ .file) :
    c.kind ≠ .commentGroup :=
  fun group => other (Kind.eq_file_of_holds (group ▸ Node.holds_child below))

theorem shownChildren_other (comments : Bool) {n : Node} (other : n.kind ≠ .file) :
    shownChildren comments n = n.children := by
  refine List.filter_eq_self.mpr fun c below => ?_
  simp [kind_ne_commentGroup below other]

/-- What is no object is followed by its children, each one level deeper. -/
theorem entries_children (comments : Bool) (depth : Nat) {n : Node} (other : n.kind ≠ .object) :
    entries comments depth n =
      nodeAt depth n :: (shownChildren comments n).flatMap (entries comments (depth + 1)) := by
  rcases n with f | ss | g | c | s | e
  · rw [shownChildren_file]
    cases comments <;> simp [entries, stmts_eq, List.flatMap_map]
  · rw [shownChildren_other comments (by simp [Node.kind])]
    simp [entries, stmts_eq, Node.children, List.flatMap_map]
  · rw [shownChildren_other comments (by simp [Node.kind])]
    simp [entries, group, Node.children, List.flatMap_map, ← List.map_eq_flatMap]
  · rfl
  · rw [shownChildren_other comments (by cases s <;> simp [Node.kind, Stmt.kind])]
    cases s <;> simp [entries, stmt, expr, Node.children]
  · rw [shownChildren_other comments (by cases e <;> simp [Node.kind, Expr.kind])]
    cases e <;> first
      | exact absurd rfl other
      | simp [entries, expr, exprs_eq, Node.children, List.flatMap_map]

namespace Printer

variable (style : Style) (painted : Bool)

def record (p : Printer) (e : Entry) : Printer :=
  (if e.item.isNode then p.count else p).write style painted e

theorem writeNode_object (depth : Nat) (fs : List Field) (l r : Pos) (p : Printer) :
    p.writeNode style painted depth (.expr (.object fs l r)) =
      fs.foldl (fun p f =>
        ((p.record style painted ⟨depth + 1, .field f⟩).writeNode style painted (depth + 2)
          (.ident f.name)).writeNode style painted (depth + 2) (.expr f.value))
        (p.record style painted (nodeAt depth (.expr (.object fs l r)))) := by
  rw [writeNode]
  exact List.foldl_attach (f := fun (p : Printer) (f : Field) =>
    ((p.record style painted ⟨depth + 1, .field f⟩).writeNode style painted (depth + 2)
      (.ident f.name)).writeNode style painted (depth + 2) (.expr f.value))

theorem writeNode_other (depth : Nat) {n : Node} (other : n.kind ≠ .object) (p : Printer) :
    p.writeNode style painted depth n =
      (shownChildren style.comments n).foldl (fun p c => p.writeNode style painted (depth + 1) c)
        (p.record style painted (nodeAt depth n)) := by
  rw [writeNode, shownChildren, List.foldl_filter]
  · refine (List.foldl_attach (f := fun (p : Printer) (c : Node) =>
      if c.kind = .commentGroup && !style.comments then p
      else p.writeNode style painted (depth + 1) c)).trans ?_
    congr 1
    funext p c
    cases c.kind = .commentGroup && !style.comments <;> rfl
  · rintro fs l r rfl
    exact other rfl

/-- The entries are written one after the other. -/
theorem writeNode_entries (depth : Nat) (n : Node) (p : Printer) :
    p.writeNode style painted depth n =
      (entries style.comments depth n).foldl (record style painted) p := by
  induction n using Node.byChildren generalizing depth p with
  | step n ih =>
    by_cases object : n.kind = .object
    · obtain ⟨fs, l, r, rfl⟩ := of_kind_object object
      rw [writeNode_object, entries_object, List.foldl_cons, List.foldl_flatMap]
      refine List.foldl_ext _ _ _ fun p f member => ?_
      have name := ih (.ident f.name) (name_child member l r)
      have value := ih (.expr f.value) (value_child member l r)
      rw [name, value, memberEntries, List.foldl_cons, List.foldl_append]
    · rw [writeNode_other style painted depth object, entries_children _ _ object, List.foldl_cons,
        List.foldl_flatMap]
      refine List.foldl_ext _ _ _ fun p c shown => ?_
      exact ih c (List.mem_of_mem_filter shown) (depth + 1) p

theorem foldl_record (es : List Entry) (p : Printer) :
    es.foldl (record style painted) p =
      ⟨p.buffer ++ String.ofList (es.flatMap (lineText style painted)),
        p.nodes + es.countP (·.item.isNode)⟩ := by
  induction es generalizing p with
  | nil => simp
  | cons e es ih =>
    rw [List.foldl_cons, ih, List.flatMap_cons, List.countP_cons, String.ofList_append]
    cases node : e.item.isNode
    · simp [record, write, node, String.append_assoc]
    · simp [record, write, count, node, String.append_assoc]
      omega

end Printer

theorem text_eq (style : Style) (colorAllowed : Bool) (n : Node) :
    text style colorAllowed n = String.ofList
      ((entries style.comments 0 n).flatMap (lineText style (style.color && colorAllowed))) := by
  simp [text, printed, Printer.writeNode_entries, Printer.foldl_record, Printer.start]

theorem nodeCount_eq (style : Style) (colorAllowed : Bool) (n : Node) :
    nodeCount style colorAllowed n = (entries style.comments 0 n).countP (·.item.isNode) := by
  simp [nodeCount, printed, Printer.writeNode_entries, Printer.foldl_record, Printer.start]

end River.Outline
