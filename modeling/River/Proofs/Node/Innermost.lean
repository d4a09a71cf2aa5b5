import River.Proofs.Node.Nesting

/-! The node that a walk is left with at a position is the innermost one there. -/
namespace River
namespace Span

/-- Where both cover a byte, the second range is inside of the first. -/
def Nests (a b : Span) : Prop := ∀ p, a.contains p = true → b.contains p = true → b.Within a

theorem Opens.nests (opens : Opens a b) : a.Nests b := by
  intro p outer inner
  rw [contains_iff] at outer inner
  refine ⟨opens.1, opens.2.resolve_right fun past => ?_⟩
  simp only [Pos.le_iff, Pos.lt_iff] at *
  omega

theorem apart_of_before {a b : Span} (before : a.last < b.first ∨ b.last < a.first) :
    Apart a b := by
  intro p covers
  rw [contains_iff] at covers
  rw [Bool.eq_false_iff, Ne, contains_iff]
  intro others
  simp only [Pos.le_iff, Pos.lt_iff] at *
  omega

theorem contains_of_within (within : Within a b) (placed : b.isPlaced = true)
    (inner : a.contains p = true) : b.contains p = true := by
  rw [contains_iff] at *
  exact ⟨placed, inner.2.1, Nat.le_trans within.1 inner.2.2.1, Nat.le_trans inner.2.2.2 within.2⟩

theorem contains_first (placed : isPlaced a = true) (forward : a.first ≤ a.last) :
    a.contains a.first = true := by
  rw [contains_iff]
  simp only [isPlaced, Bool.and_eq_true] at *
  exact ⟨placed, placed.1, Nat.le_refl _, forward⟩

theorem contains_last (placed : isPlaced a = true) (forward : a.first ≤ a.last) :
    a.contains a.last = true := by
  rw [contains_iff]
  simp only [isPlaced, Bool.and_eq_true] at *
  exact ⟨placed, placed.2, forward, Nat.le_refl _⟩

/-- A range with a byte in common with ordered ranges, but with none of them, is between two. -/
theorem within_hull_of_apart (ordered : Ordered ranges) (solid : ranges ≠ [])
    (apart : ∀ a ∈ ranges, Apart g a) : (hull ranges).Nests g := by
  intro p outer inner
  obtain ⟨a, aMember, starts⟩ := exists_hull_first solid
  obtain ⟨b, bMember, ends⟩ := exists_hull_last solid
  have clearFirst : ¬g.contains a.first = true := fun covers => by
    have := contains_first (ordered.placed a aMember) (ordered.forward a aMember)
    simp [apart a aMember _ covers] at this
  have clearLast : ¬g.contains b.last = true := fun covers => by
    have := contains_last (ordered.placed b bMember) (ordered.forward b bMember)
    simp [apart b bMember _ covers] at this
  have aPlaced := ordered.placed a aMember
  have bPlaced := ordered.placed b bMember
  rw [contains_iff] at outer inner clearFirst clearLast
  rw [starts, ends] at outer
  rw [Within, starts, ends]
  simp only [isPlaced, Bool.and_eq_true, Pos.le_iff] at *
  constructor
  · by_cases before : a.first.rank ≤ g.first.rank
    · exact before
    · exact absurd ⟨inner.1, aPlaced.1, by omega, by omega⟩ clearFirst
  · by_cases after : g.last.rank ≤ b.last.rank
    · exact after
    · exact absurd ⟨inner.1, bPlaced.2, by omega, by omega⟩ clearLast

end Span

namespace Node

variable {m n x : Node} {nodes : List Node} {p : Pos}

theorem solid_of_contains (covers : n.span.contains p = true) : ¬n.Empty := by
  intro empty
  rw [span_of_empty empty] at covers
  exact absurd covers (by simp [Span.contains, Span.nowhere, Span.isPlaced, Pos.isPlaced])

theorem Opens.nests (opens : Opens m n) : m.span.Nests n.span := fun p outer inner =>
  (opens (solid_of_contains outer) (solid_of_contains inner)).nests p outer inner

/-- The last of nested nodes that contain a position is inside of all of them. -/
theorem last_innermost (nested : nodes.Pairwise fun m n => m.span.Nests n.span)
    (found : (nodes.filter (·.span.contains p)).getLast? = some n) :
    n ∈ nodes ∧ n.span.contains p = true ∧
      ∀ m ∈ nodes, m.span.contains p = true → n.span.Within m.span := by
  obtain ⟨outer, hits⟩ := List.getLast?_eq_some_iff.1 found
  have hit : n ∈ nodes.filter (·.span.contains p) := hits ▸ List.mem_append_right _ (by simp)
  rw [List.mem_filter] at hit
  refine ⟨hit.1, hit.2, fun m member covers => ?_⟩
  have mHit : m ∈ nodes.filter (·.span.contains p) := List.mem_filter.2 ⟨member, covers⟩
  have nested := nested.filter (·.span.contains p)
  rw [hits, List.pairwise_append] at nested
  rw [hits, List.mem_append, List.mem_singleton] at mHit
  rcases mHit with earlier | rfl
  · exact nested.2.2 m earlier n (by simp) p covers hit.2
  · exact ⟨Nat.le_refl _, Nat.le_refl _⟩

theorem within_group (ordered : Span.Ordered (commentGroup g).anchors)
    (below : x ∈ (commentGroup g).preorder) (covers : x.span.contains p = true) :
    x.span.Within (commentGroup g).span ∧ (commentGroup g).span.contains p = true := by
  have part := x.ownAnchors_sublist.trans (below_sublist (by simp) below)
  have some := ownAnchors_ne_nil (solid_of_contains covers)
  have within : x.span.Within (commentGroup g).span := by
    rw [span_hull, span_hull]
    exact ordered.hull_within part some
  have placed : (commentGroup g).span.isPlaced = true := by
    rw [span_hull]
    exact ordered.hull_placed fun none => some (List.sublist_nil.1 (none ▸ part))
  exact ⟨within, Span.contains_of_within within placed covers⟩

theorem nests_group (ordered : Span.Ordered m.ownAnchors)
    (clear : ∀ a ∈ m.ownAnchors, (commentGroup g).span.Apart a)
    (comments : Span.Ordered (commentGroup g).anchors) (below : x ∈ (commentGroup g).preorder) :
    m.span.Nests x.span := by
  intro p outer inner
  obtain ⟨within, covers⟩ := within_group comments below inner
  have solid := ownAnchors_ne_nil (solid_of_contains outer)
  rw [span_hull m] at outer ⊢
  have around := Span.within_hull_of_apart ordered solid clear p outer covers
  exact ⟨Nat.le_trans around.1 within.1, Nat.le_trans within.2 around.2⟩

/-- The spans of a file are nested wherever they overlap, the outer ones first. -/
theorem file_nests {f : File} (sorted : (file f).SourceOrdered)
    (apart : f.CommentsApart) : (file f).preorder.Pairwise fun m n => m.span.Nests n.span := by
  have whole := sorted.ordered (mem_preorder.2 (.inl rfl))
  have comments (g) (member : g ∈ f.comments) : Span.Ordered (commentGroup g).anchors :=
    sorted.ordered (mem_preorder.2 (.inr
      ⟨_, List.mem_cons_of_mem _ (List.mem_map_of_mem member), mem_preorder.2 (.inl rfl)⟩))
  have fromFile (m : Node) (part : m.ownAnchors.Sublist (file f).anchors) (g)
      (member : g ∈ f.comments) (x) (below : x ∈ (commentGroup g).preorder) :
      m.span.Nests x.span :=
    nests_group (whole.sublist part)
      (fun a aMember => apart.anchors g member a (part.subset aMember)) (comments g member) below
  have inBody (m) (below : m ∈ (body f.body).preorder) :
      m.anchors.Sublist (body f.body).anchors := below_sublist (by simp) below
  have bodyNests := (preorder_opens (n := body f.body) (by simp) whole).imp Opens.nests
  rw [preorder_children, List.pairwise_cons, List.pairwise_flatMap, children,
    List.pairwise_cons, List.pairwise_map]
  refine ⟨fun x below => ?_, ?_, ?_, ?_⟩
  · obtain ⟨c, child, below⟩ := List.mem_flatMap.1 below
    rcases List.mem_cons.1 child with rfl | child
    · rw [preorder_children, List.pairwise_cons] at bodyNests
      rcases List.mem_cons.1 (preorder_children _ ▸ below) with rfl | below
      · exact fun p _ _ => ⟨Nat.le_refl _, Nat.le_refl _⟩
      · exact bodyNests.1 x below
    · obtain ⟨g, member, rfl⟩ := List.mem_map.1 child
      exact fromFile (file f) (file f).ownAnchors_sublist g member x below
  · refine List.forall_mem_cons.2 ⟨bodyNests, fun c child => ?_⟩
    obtain ⟨g, member, rfl⟩ := List.mem_map.1 child
    exact (preorder_opens (by simp) (comments g member)).imp Opens.nests
  · intro c child m mBelow x xBelow
    obtain ⟨g, member, rfl⟩ := List.mem_map.1 child
    exact fromFile m (m.ownAnchors_sublist.trans (inBody m mBelow)) g member x xBelow
  · have groups := List.pairwise_map.1 apart.groups
    apply groups.imp_of_mem
    intro g h gMember hMember clear x xBelow y yBelow p xCovers yCovers
    have inGroup := (within_group (comments g gMember) xBelow xCovers).2
    have inOther := (within_group (comments h hMember) yBelow yCovers).2
    simp [clear p inGroup] at inOther

/-- Of all nodes of a file at a position the last one is the smallest, also where the value of an
attribute is out of the attribute's span or a comment stands within a statement. -/
theorem nodeAt?_innermost {f : File} (sorted : (file f).SourceOrdered) (apart : f.CommentsApart)
    (p : Pos) :
    ((∃ m ∈ (file f).preorder, m.span.contains p = true) →
      ∃ n ∈ (file f).preorder, (file f).nodeAt? p = some n ∧ n.span.contains p = true ∧
        ∀ m ∈ (file f).preorder, m.span.contains p = true → n.span.Within m.span) ∧
    ((∀ m ∈ (file f).preorder, m.span.contains p = false) → (file f).nodeAt? p = none) := by
  have nested := file_nests sorted apart
  rw [nodeAt?_preorder]
  constructor
  · rintro ⟨m, member, covers⟩
    have hit : m ∈ (file f).preorder.filter (·.span.contains p) :=
      List.mem_filter.2 ⟨member, covers⟩
    have found := List.getLast?_eq_some_getLast (List.ne_nil_of_mem hit)
    obtain ⟨inside, holds, smallest⟩ := last_innermost nested found
    exact ⟨_, inside, found, holds, smallest⟩
  · intro missed
    rw [List.getLast?_eq_none_iff, List.filter_eq_nil_iff]
    intro m member
    simp [missed m member]

theorem remarkedFile_apart : remarkedFile.CommentsApart := by
  have before : ∀ g ∈ remarkedFile.comments, ∀ a ∈ (file remarkedFile).anchors,
      (commentGroup g).last < a.first ∨ a.last < (commentGroup g).first := by decide
  exact ⟨List.pairwise_singleton _ _, fun g member a aMember =>
    Span.apart_of_before (before g member a aMember)⟩

theorem innermost_in_remarkedFile :
    ∃ n ∈ (file remarkedFile).preorder, (file remarkedFile).nodeAt? (.ofOffset 12) = some n ∧
      n.span.contains (.ofOffset 12) = true ∧
      ∀ m ∈ (file remarkedFile).preorder, m.span.contains (.ofOffset 12) = true →
        n.span.Within m.span := by
  have covers : (file remarkedFile).span.contains (.ofOffset 12) = true := by decide
  exact (nodeAt?_innermost remarkedFile_sorted remarkedFile_apart (.ofOffset 12)).1
    ⟨file remarkedFile, mem_preorder.2 (.inl rfl), covers⟩

end Node
end River
