import River.Node.Order
import River.Node.Walk

/-! A walk goes through the nodes of a tree in preorder: the list by recursion on the tree is the
one that the children spell out. -/
namespace River

namespace Kind

/-- What can stand directly below what. -/
def holds : Kind → Kind → Bool
  | .file, k => k = .body || k = .commentGroup
  | .body, k => k.isStmt
  | .commentGroup, k => k = .comment
  | .block, k => k = .body
  | .comment, _ | .ident, _ | .literal, _ => false
  | _, k => k.isExpr

theorem not_holds_file (k : Kind) : k.holds .file = false := by
  cases k <;> rfl

theorem eq_file_of_holds {k : Kind} (group : k.holds .commentGroup = true) : k = .file := by
  cases k with
  | file => rfl
  | _ => cases group

end Kind

namespace Node

theorem child_of_expr {c : Node} {e : Expr} (below : c ∈ (expr e).children) :
    ∃ d, c = expr d := by
  cases e <;> simp only [children, List.mem_cons, List.mem_map, List.mem_flatMap,
    List.not_mem_nil, or_false] at below <;> grind

theorem isExpr_expr (e : Expr) : (expr e).kind.isExpr = true := by
  cases e <;> rfl

theorem holds_child {c n : Node} (below : c ∈ n.children) : n.kind.holds c.kind = true := by
  rcases n with f | ss | g | d | s | e
  · rcases List.mem_cons.1 below with rfl | below
    · rfl
    · obtain ⟨g, _, rfl⟩ := List.mem_map.1 below
      rfl
  · obtain ⟨s, _, rfl⟩ := List.mem_map.1 below
    cases s <;> rfl
  · obtain ⟨d, _, rfl⟩ := List.mem_map.1 below
    rfl
  · cases below
  · rcases s with ⟨name, value⟩ | ⟨name, namePos, label, ss, lcurly, rcurly⟩
    · simp only [children, List.mem_cons, List.not_mem_nil, or_false] at below
      rcases below with rfl | rfl
      · rfl
      · exact isExpr_expr value
    · cases List.mem_singleton.1 below
      rfl
  · obtain ⟨d, rfl⟩ := child_of_expr below
    cases e with
    | ident | literal => cases below
    | _ => exact isExpr_expr d

end Node

/-- What holds of a node once it holds of its children holds of every node. -/
@[elab_as_elim]
theorem Node.byChildren {motive : Node → Prop}
    (step : ∀ n, (∀ c ∈ n.children, motive c) → motive n) (n : Node) : motive n :=
  step n fun c _ => byChildren step c
termination_by sizeOf n
decreasing_by exact sizeOf_child ‹_›

theorem Expr.preorderAll_eq (es : List Expr) : preorderAll es = es.flatMap preorder := by
  induction es with
  | nil => rfl
  | cons e es ih => simp [preorderAll, ih]

theorem Expr.preorderFields_eq (fs : List Field) :
    preorderFields fs = fs.flatMap fun f => .ident f.name :: f.value.preorder := by
  induction fs with
  | nil => rfl
  | cons f fs ih =>
    obtain ⟨name, quoted, value⟩ := f
    simp [preorderFields, preorderField, ih]

theorem Stmt.preorderAll_eq (ss : List Stmt) : preorderAll ss = ss.flatMap preorder := by
  induction ss with
  | nil => rfl
  | cons s ss ih => simp [preorderAll, ih]

namespace Node

theorem preorder_children (n : Node) : n.preorder = n :: n.children.flatMap preorder := by
  rcases n with f | ss | g | c | s | e
  · simp [preorder, children, List.flatMap_map, Stmt.preorderAll_eq]
  · simp [preorder, children, List.flatMap_map, Stmt.preorderAll_eq]
  · simp [preorder, groupPreorder, children, List.flatMap_map, ← List.map_eq_flatMap]
  · rfl
  · cases s <;> simp [preorder, Stmt.preorder, Expr.preorder, children]
  · cases e <;> simp [preorder, Expr.preorder, children, List.flatMap_map, List.flatMap_assoc,
      Expr.preorderAll_eq, Expr.preorderFields_eq]

theorem mem_preorder {m n : Node} :
    m ∈ n.preorder ↔ m = n ∨ ∃ c ∈ n.children, m ∈ c.preorder := by
  rw [preorder_children, List.mem_cons, List.mem_flatMap]

/-- Going through nodes, each in the order of a list of its own, is going through all the lists. -/
theorem forM_lists [Monad m] [LawfulMonad m] {visit step : Node → m PUnit}
    {list : Node → List Node} {nodes : List Node}
    (each : ∀ n ∈ nodes, step n = (list n).forM visit) :
    nodes.forM step = (nodes.flatMap list).forM visit := by
  induction nodes with
  | nil => rfl
  | cons n nodes ih =>
    rw [List.forall_mem_cons] at each
    simp only [List.forM_eq_forM, List.forM_cons, List.flatMap_cons, List.forM_append] at ih each ⊢
    rw [each.1, ih each.2]

/-- A walk visits the nodes one after the other, and whatever stops the visitor stops the walk. -/
theorem walk_preorder [Monad m] [LawfulMonad m] (visit : Node → m PUnit) (n : Node) :
    n.walk visit = n.preorder.forM visit := by
  induction n using byChildren with
  | step n ih =>
    have unattached : (n.children.attach.forM fun c => walk visit c.val) =
        n.children.forM (walk visit) := by
      simpa using (List.forM_map (l := n.children.attach) (g := Subtype.val)
        (f := walk visit)).symm
    rw [walk, unattached, forM_lists ih, preorder_children n]
    simp only [List.forM_eq_forM, List.forM_cons]

theorem find_preorder (p : Node → Bool) (n : Node) : n.find p = n.preorder.filter p := by
  have kept : ∀ (nodes found : List Node),
      (((nodes.forM fun c => (modify fun found => if p c then c :: found else found :
        StateM (List Node) PUnit)).run found).2 : List Node) =
        (nodes.filter p).reverse ++ found := by
    intro nodes
    induction nodes with
    | nil => intro found; rfl
    | cons c nodes ih =>
      intro found
      apply (ih _).trans
      by_cases holds : p c
      · simp [holds]
      · simp [holds]
  rw [find, walk_preorder, kept, List.append_nil, List.reverse_reverse]

/-- The last node of the preorder that contains a position is the one that a walk is left with. -/
theorem nodeAt?_preorder (p : Pos) (n : Node) :
    n.nodeAt? p = (n.preorder.filter (·.span.contains p)).getLast? := by
  have kept : ∀ (nodes : List Node) (found : Option Node),
      (((nodes.forM fun c => (modify fun found => if c.span.contains p then some c else found :
        StateM (Option Node) PUnit)).run found).2 : Option Node) =
        ((nodes.filter (·.span.contains p)).getLast?).or found := by
    intro nodes
    induction nodes with
    | nil => intro found; rfl
    | cons c nodes ih =>
      intro found
      apply (ih _).trans
      by_cases holds : c.span.contains p
      · simp [holds, List.getLast?_cons]
      · simp [holds]
  rw [nodeAt?, walk_preorder, kept, Option.or_none]

end Node
end River
