import River.Proofs.Node.Preorder

/-! A walk that visits a node after what is below it goes through the tree in postorder. -/
namespace River

theorem Expr.postorderAll_eq (es : List Expr) : postorderAll es = es.flatMap postorder := by
  induction es with
  | nil => rfl
  | cons e es ih => simp [postorderAll, ih]

theorem Expr.postorderFields_eq (fs : List Field) :
    postorderFields fs = fs.flatMap fun f => .ident f.name :: f.value.postorder := by
  induction fs with
  | nil => rfl
  | cons f fs ih =>
    obtain ⟨name, quoted, value⟩ := f
    simp [postorderFields, postorderField, ih]

theorem Stmt.postorderAll_eq (ss : List Stmt) : postorderAll ss = ss.flatMap postorder := by
  induction ss with
  | nil => rfl
  | cons s ss ih => simp [postorderAll, ih]

namespace Node

/-- A node stands after what is below its children, child by child. -/
theorem postorder_children (n : Node) : n.postorder = n.children.flatMap postorder ++ [n] := by
  rcases n with f | ss | g | c | s | e
  · simp [postorder, children, List.flatMap_map, Stmt.postorderAll_eq]
  · simp [postorder, children, List.flatMap_map, Stmt.postorderAll_eq]
  · simp [postorder, groupPostorder, children, List.flatMap_map, ← List.map_eq_flatMap]
  · rfl
  · cases s <;> simp [postorder, Stmt.postorder, Expr.postorder, Stmt.postorderAll_eq, children]
  · cases e <;> simp [postorder, Expr.postorder, children, List.flatMap_map, List.flatMap_assoc,
      Expr.postorderAll_eq, Expr.postorderFields_eq]

theorem walkPost_postorder [Monad m] [LawfulMonad m] (visit : Node → m PUnit) (n : Node) :
    n.walkPost visit = n.postorder.forM visit := by
  induction n using byChildren with
  | step n ih =>
    have unattached : (n.children.attach.forM fun c => walkPost visit c.val) =
        n.children.forM (walkPost visit) := by
      simpa using (List.forM_map (l := n.children.attach) (g := Subtype.val)
        (f := walkPost visit)).symm
    rw [walkPost, unattached, forM_lists ih, postorder_children n]
    simp only [List.forM_eq_forM, List.forM_append, List.forM_cons, List.forM_nil,
      bind_pure_unit]

end Node
end River
