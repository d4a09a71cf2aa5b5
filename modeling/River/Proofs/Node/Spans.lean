import River.Proofs.Node.Anchors

/-! In a tree in source order every span has its ends in order, nests inside the span above it and
keeps clear of its siblings. In any tree a span is told by the ends of its anchors. -/
namespace River.Node

/-- A child has its own anchors from its parent. The values of attributes do not, and neither do
the comments of a file. -/
theorem child_ownAnchors {c n : Node} (below : c ∈ n.children) :
    c.ownAnchors.Sublist n.ownAnchors ∨
      (∃ name value, n = stmt (.attribute name value) ∧ c = expr value) ∨
      ∃ f g, n = file f ∧ c = commentGroup g := by
  rcases n with f | ss | g | c | s | e
  · rcases List.mem_cons.1 below with rfl | below
    · exact .inl (.refl _)
    · obtain ⟨g, -, rfl⟩ := List.mem_map.1 below
      exact .inr (.inr ⟨f, g, rfl, rfl⟩)
  · obtain ⟨s, member, rfl⟩ := List.mem_map.1 below
    left
    rw [ownAnchors, ownAnchors, Stmt.ownAnchorsAll_eq]
    exact List.sublist_flatten_of_mem (List.mem_map_of_mem member)
  · obtain ⟨c, member, rfl⟩ := List.mem_map.1 below
    exact .inl (List.singleton_sublist.2 (List.mem_map_of_mem member))
  · cases below
  · rcases s with ⟨name, value⟩ | ⟨name, namePos, label, ss, lcurly, rcurly⟩
    · rcases List.mem_cons.1 below with rfl | below
      · exact .inl (.refl _)
      · exact .inr (.inl ⟨name, value, rfl, List.mem_singleton.1 below⟩)
    · cases List.mem_singleton.1 below
      exact .inl (((List.sublist_append_left _ _).cons _).cons _)
  · exact .inl (c.ownAnchors_sublist.trans (child_sublist (by simp) below))

theorem children_apart (single : ∀ f, n ≠ file f) (ordered : Span.Ordered n.anchors) :
    n.children.Pairwise fun c d => ∀ a ∈ c.anchors, ∀ b ∈ d.anchors, a.last < b.first :=
  (List.pairwise_flatMap.1 (ordered.sublist (children_sublist single)).apart).2

theorem before_of_anchors {c d : Node}
    (before : ∀ a ∈ c.anchors, ∀ b ∈ d.anchors, a.last < b.first)
    (solid : ¬c.Empty) (otherSolid : ¬d.Empty) : c.last < d.first := by
  have := Span.hull_before
    (fun a aMember b bMember => before a (c.ownAnchors_sublist.subset aMember) b
      (d.ownAnchors_sublist.subset bMember))
    (ownAnchors_ne_nil solid) (ownAnchors_ne_nil otherSolid)
  rwa [← span_hull, ← span_hull] at this

theorem first_le_last {n : Node} (ordered : Span.Ordered n.anchors) (solid : ¬n.Empty) :
    n.first ≤ n.last := by
  have forward := (ordered.sublist n.ownAnchors_sublist).hull_forward (ownAnchors_ne_nil solid)
  rwa [← span_hull] at forward

/-- `x = -y`, four bytes into a text. -/
def setting : Stmt :=
  .attribute ⟨"x", .ofOffset 4⟩ (.unary .sub (.ofOffset 8) (.ident ⟨"y", .ofOffset 9⟩))

/-- `a { x = -y // c` and a brace on the next line. -/
def remarkedFile : File where
  name := "f.river"
  body := [.block ⟨"a", []⟩ (.ofOffset 0) none [setting] (.ofOffset 2) (.ofOffset 16)]
  comments := [[⟨.ofOffset 11, "// c"⟩]]

theorem remarkedFile_sorted : (file remarkedFile).SourceOrdered := by
  refine ⟨by decide, fun g below => ?_⟩
  simp [preorder, remarkedFile, setting, Stmt.preorderAll, Stmt.preorder, Expr.preorder,
    groupPreorder] at below
  subst below
  decide

/-- Only attributes and files have anything below them that is not inside of them: the value of an
attribute is after it, and the comments of a file are anywhere. -/
theorem spans_in_source_order {root n : Node} (sorted : root.SourceOrdered)
    (below : n ∈ root.preorder) (solid : ¬n.Empty) :
    n.span.isPlaced = true ∧ n.first ≤ n.last ∧
    (∀ c ∈ n.children, ¬c.Empty →
      c.span.Within n.span ∨
      (∃ name value, n = stmt (.attribute name value) ∧ c = expr value ∧ n.last < c.first) ∨
      ∃ f g, n = file f ∧ c = commentGroup g) ∧
    ((∀ f, n ≠ file f) →
      n.children.Pairwise fun c d => ¬c.Empty → ¬d.Empty → c.last < d.first) := by
  have all := sorted.ordered below
  have own := all.sublist n.ownAnchors_sublist
  refine ⟨?_, first_le_last all solid, fun c child childSolid => ?_, fun single => ?_⟩
  · rw [span_hull]
    exact own.hull_placed (ownAnchors_ne_nil solid)
  · rcases child_ownAnchors child with part | ⟨name, value, rfl, rfl⟩ | outside
    · left
      rw [span_hull, span_hull]
      exact own.hull_within part (ownAnchors_ne_nil childSolid)
    · have apart := children_apart (by simp) all
      rw [children, List.pairwise_pair] at apart
      exact .inr (.inl ⟨name, value, rfl, rfl, before_of_anchors (c := ident name) apart id id⟩)
    · exact .inr (.inr outside)
  · exact (children_apart single all).imp before_of_anchors

theorem spans_of_setting :
    stmt setting ∈ (file remarkedFile).preorder ∧ ¬(stmt setting).Empty ∧
    (stmt setting).span.isPlaced = true ∧ (stmt setting).first ≤ (stmt setting).last ∧
    (stmt setting).children.Pairwise fun c d => ¬c.Empty → ¬d.Empty → c.last < d.first := by
  have below : stmt setting ∈ (file remarkedFile).preorder := by
    simp [preorder, remarkedFile, Stmt.preorderAll, Stmt.preorder, setting]
  have spans := spans_in_source_order remarkedFile_sorted below id
  exact ⟨below, id, spans.1, spans.2.1, spans.2.2.2 (by simp)⟩

end River.Node
