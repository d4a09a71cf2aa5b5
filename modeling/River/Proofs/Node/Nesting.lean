import River.Proofs.Node.Spans

/-! In source order the spans of a preorder open one after the other, and each closes before the
next one opens or around it. -/
namespace River

/-- The second range starts no earlier than the first, and it is inside or past the end. -/
def Span.Opens (a b : Span) : Prop := a.first ≤ b.first ∧ (b.last ≤ a.last ∨ a.last < b.first)

namespace Node

variable {c d m n : Node}

/-- What is not empty opens in order. -/
def Opens (m n : Node) : Prop := ¬m.Empty → ¬n.Empty → m.span.Opens n.span

/-- What has its own anchors from the ranges that make up a span is inside of that span. -/
theorem opens_of_sublist (ordered : Span.Ordered ranges) (whole : m.span = Span.hull ranges)
    (part : n.ownAnchors.Sublist ranges) : m.Opens n := by
  intro _ solid
  have within := ordered.hull_within part (ownAnchors_ne_nil solid)
  rw [whole, span_hull]
  exact ⟨within.1, .inl within.2⟩

theorem opens_of_before (ordered : Span.Ordered m.anchors)
    (before : ∀ a ∈ m.anchors, ∀ b ∈ n.anchors, a.last < b.first) : m.Opens n := by
  intro solid otherSolid
  have past := before_of_anchors before solid otherSolid
  have forward := first_le_last ordered solid
  refine ⟨?_, .inr past⟩
  simp only [span, Pos.le_iff, Pos.lt_iff] at *
  omega

theorem body_starts (ordered : Span.Ordered (body ss).anchors) (member : s ∈ ss) :
    (body ss).first ≤ s.first := by
  have own := ordered.sublist (body ss).ownAnchors_sublist
  have part : (stmt s).ownAnchors.Sublist (body ss).ownAnchors := by
    simpa using child_ownAnchors (n := body ss) (List.mem_map_of_mem member)
  exact (opens_of_sublist own (body ss).span_hull part (List.ne_nil_of_mem member) id).1

/-- What is below a statement that others follow is inside of the body, which goes on past it. What
is below the last one is as that statement has it, since the body ends with it. -/
theorem body_opens (ordered : Span.Ordered (body ss).anchors) (member : s ∈ ss)
    (below : d ∈ (stmt s).preorder) (opens : (stmt s).Opens d) : (body ss).Opens d := by
  intro _ solid
  have inner := opens id solid
  refine ⟨Nat.le_trans (body_starts ordered member) inner.1, ?_⟩
  obtain ⟨front, z, rfl⟩ : ∃ front z, ss = front ++ [z] :=
    ⟨_, _, (List.dropLast_concat_getLast (List.ne_nil_of_mem member)).symm⟩
  have ends : (body (front ++ [z])).span.last = z.last := by simp [span, last, lastOf]
  rw [ends]
  rcases List.mem_append.1 member with earlier | final
  · have apart := children_apart (by simp) ordered
    rw [children, List.map_append, List.pairwise_append] at apart
    have before : ∀ a ∈ d.anchors, ∀ b ∈ (stmt z).anchors, a.last < b.first :=
      fun a aMember => apart.2.2 (stmt s) (List.mem_map_of_mem earlier) (stmt z)
        (List.mem_singleton_self _) a ((below_sublist (by simp) below).subset aMember)
    have past : d.last < z.first := before_of_anchors before solid id
    have child : stmt z ∈ (body (front ++ [z])).children := List.mem_map_of_mem (by simp)
    have forward : z.first ≤ z.last :=
      first_le_last (ordered.sublist (child_sublist (by simp) child)) id
    exact .inl (Nat.le_trans (Nat.le_of_lt past) forward)
  · cases List.mem_singleton.1 final
    exact inner.2

theorem opens_below (single : ∀ f, n ≠ file f) (ordered : Span.Ordered n.anchors)
    (child : c ∈ n.children) (below : d ∈ c.preorder) (opens : c.Opens d) : n.Opens d := by
  have part := d.ownAnchors_sublist.trans
    ((below_sublist (child_ne_file child) below).trans (child_sublist single child))
  rcases n with f | ss | g | c | s | e
  · exact absurd rfl (single f)
  · obtain ⟨s, member, rfl⟩ := List.mem_map.1 child
    exact body_opens ordered member below opens
  · exact opens_of_sublist ordered (span_hull _) part
  · exact opens_of_sublist ordered (span_hull _) part
  · rcases s with ⟨name, value⟩ | ⟨name, namePos, label, ss, lcurly, rcurly⟩
    · rcases List.mem_cons.1 child with rfl | child
      · exact opens
      · cases List.mem_singleton.1 child
        have apart := children_apart single ordered
        rw [children, List.pairwise_pair] at apart
        have named : Span.Ordered (ident name).anchors :=
          ordered.sublist (child_sublist single List.mem_cons_self)
        exact opens_of_before (m := ident name) named fun a aMember b bMember =>
          apart a aMember b ((below_sublist (by simp) below).subset bMember)
    · refine opens_of_sublist ordered ?_ part
      simp [span, Span.hull, first, last, firstOf, lastOf, anchors, Stmt.anchors, Stmt.first,
        Stmt.last, Span.point, List.getLast?_cons, List.getLast?_append]
  · exact opens_of_sublist ordered (span_hull _) part

theorem preorder_opens (single : ∀ f, n ≠ file f) (ordered : Span.Ordered n.anchors) :
    n.preorder.Pairwise Opens := by
  induction n using byChildren with
  | step n ih =>
    have parts (c) (child : c ∈ n.children) : c.preorder.Pairwise Opens :=
      ih c child (child_ne_file child) (ordered.sublist (child_sublist single child))
    rw [preorder_children, List.pairwise_cons, List.pairwise_flatMap]
    refine ⟨fun d below => ?_, parts, ?_⟩
    · obtain ⟨c, child, below⟩ := List.mem_flatMap.1 below
      apply opens_below single ordered child below
      have part := parts c child
      rw [preorder_children, List.pairwise_cons] at part
      rcases mem_preorder.1 below with rfl | below
      · exact fun _ _ => ⟨Nat.le_refl _, .inl (Nat.le_refl _)⟩
      · exact part.1 d (List.mem_flatMap.2 below)
    · apply (children_apart single ordered).imp_of_mem
      intro c d cChild dChild before m mBelow n nBelow
      have some := below_sublist (child_ne_file cChild) mBelow
      have others := below_sublist (child_ne_file dChild) nBelow
      have part := ordered.sublist (some.trans (child_sublist single cChild))
      exact opens_of_before part fun a aMember b bMember =>
        before a (some.subset aMember) b (others.subset bMember)

end Node
end River
