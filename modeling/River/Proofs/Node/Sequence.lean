import River.Proofs.Node.Nesting
import River.Proofs.Node.Orders

/-! A walk goes through a file in the order of its source: what is visited later starts no earlier,
and the names and literals stand one behind the other. Comments are visited last. -/
namespace River

/-- Groups of comments, and comments. -/
def Kind.isCommentary : Kind → Bool
  | .commentGroup | .comment => true
  | _ => false

/-- The names and literals, of which everything else is made. -/
def Kind.isLeaf : Kind → Bool
  | .ident | .literal => true
  | _ => false

theorem Kind.isLeaf_of_isCommentary {k : Kind} (commentary : k.isCommentary = true) :
    k.isLeaf = false := by
  cases k <;> simp_all [isCommentary, isLeaf]

namespace Node

variable {n : Node} {f : File}

theorem solid_of_first (placed : n.first.isPlaced = true) : ¬n.Empty := by
  intro empty
  have nowhere : n.first = .unplaced := congrArg Span.first (span_of_empty empty)
  rw [nowhere] at placed
  cases placed

theorem file_opens (ordered : Span.Ordered (file f).anchors) :
    (file f :: (body f.body).preorder).Pairwise Opens := by
  have opens := preorder_opens (n := body f.body) (by simp) ordered
  refine List.pairwise_cons.2 ⟨fun n below => ?_, opens⟩
  rw [preorder_children, List.pairwise_cons] at opens
  rcases List.mem_cons.1 (preorder_children _ ▸ below) with rfl | below
  · exact fun _ _ => ⟨Nat.le_refl _, .inl (Nat.le_refl _)⟩
  · exact opens.1 n below

theorem anchors_of_leaf (leaf : n.kind.isLeaf = true) : n.anchors = [n.span] ∧ n.children = [] := by
  rcases n with f | ss | g | c | s | e
  · cases leaf
  · cases leaf
  · cases leaf
  · cases leaf
  · cases s <;> cases leaf
  · cases e with
    | ident | literal => exact ⟨rfl, rfl⟩
    | _ => cases leaf

/-- The names and literals below a node are some of its anchors, in their order. -/
theorem leaves_sublist (single : ∀ f, n ≠ file f) :
    ((n.preorder.filter (·.kind.isLeaf)).map span).Sublist n.anchors := by
  induction n using byChildren with
  | step n ih =>
    rw [preorder_children, List.filter_cons]
    split
    · next leaf =>
      obtain ⟨anchors, children⟩ := anchors_of_leaf leaf
      simp [anchors, children]
    · rw [List.filter_flatMap, List.map_flatMap]
      exact (List.Sublist.flatMap_right n.children fun c child =>
        ih c child (child_ne_file child)).trans (children_sublist single)

theorem leaves_apart (single : ∀ f, n ≠ file f) (ordered : Span.Ordered n.anchors) :
    (n.preorder.filter (·.kind.isLeaf)).Pairwise fun l m => l.first < m.first ∧ l.last < m.first := by
  have leaves := ordered.sublist (leaves_sublist single)
  refine (List.pairwise_map.1 leaves.apart).imp_of_mem fun {l m} found _ past => ⟨?_, past⟩
  have forward := leaves.forward _ (List.mem_map_of_mem found)
  simp only [span, Pos.le_iff, Pos.lt_iff] at *
  omega

theorem file_preorder (f : File) :
    (file f).preorder = file f :: (body f.body).preorder ++ f.comments.flatMap groupPreorder := by
  simp [preorder]

theorem isCommentary_group (below : n ∈ groupPreorder g) : n.kind.isCommentary = true := by
  rcases List.mem_cons.1 below with rfl | below
  · rfl
  · obtain ⟨c, _, rfl⟩ := List.mem_map.1 below
    rfl

theorem filter_file (p : Node → Bool) (other : ∀ n, n.kind.isCommentary = true → p n = false) :
    (file f).preorder.filter p = (file f :: (body f.body).preorder).filter p := by
  rw [file_preorder, List.filter_append]
  have none : (f.comments.flatMap groupPreorder).filter p = [] := by
    refine List.filter_eq_nil_iff.2 fun n below => ?_
    obtain ⟨g, _, below⟩ := List.mem_flatMap.1 below
    simp [other n (isCommentary_group below)]
  rw [none, List.append_nil]

theorem stmt_in_body (standing : (file f).at? place = some (stmt s)) :
    ∃ rest, place = .body :: rest ∧ rest ∈ (body f.body).places := by
  cases place with
  | nil => cases standing
  | cons slot rest =>
    rw [at?_cons] at standing
    obtain ⟨c, part, standing⟩ := Option.bind_eq_some_iff.1 standing
    cases slot with
    | body =>
      obtain rfl := Option.some.inj part
      exact ⟨rest, rfl, mem_places.2 (by rw [standing]; rfl)⟩
    | group i =>
      obtain ⟨g, -, rfl⟩ := Option.map_eq_some_iff.1 part
      have below : stmt s ∈ groupPreorder g := mem_preorder_at?.2 ⟨rest, standing⟩
      have commentary := isCommentary_group below
      cases s <;> cases commentary
    | _ => cases part

/-- A walk comes to the groups of comments after the body, so after every statement. -/
theorem stmt_before_group (standing : (file f).at? place = some (stmt s))
    (group : f.comments[i]? = some g) : Precedes (file f).places place [.group i] := by
  obtain ⟨rest, rfl, below⟩ := stmt_in_body standing
  have second : (.group i, commentGroup g) ∈ numbered .group (f.comments.map commentGroup) :=
    mem_numbered.2 ⟨i, rfl, by simp [group]⟩
  have order : Precedes (file f).parts (.body, body f.body) (.group i, commentGroup g) :=
    (List.singleton_sublist.2 second).cons_cons _
  have root : [] ∈ (commentGroup g).places := mem_places.2 rfl
  rw [places_eq]
  exact (order.flatMap (f := fun part => part.2.places.map (part.1 :: ·))
    (List.mem_map_of_mem below) (List.mem_map_of_mem root)).mono (List.sublist_cons_self _ _)

/-- A walk visits the nodes of a file whose anchors are in order as they stand in the source. What
has no start is left out of that, and so are the comments, which may stand anywhere. The places list
what is visited in its order, and there the groups of comments come after every statement. -/
theorem visited_in_source_order (sorted : Span.Ascending (file f).anchors) :
    (file f).visited = (file f).preorder ∧
    (file f).Enumerates (file f).visited (file f).places ∧
    (((file f).visited.filter fun n => !n.kind.isCommentary && n.first.isPlaced).map first).Pairwise
      (· ≤ ·) ∧
    ((file f).visited.filter (·.kind.isLeaf)).Pairwise
      (fun m n => m.first < n.first ∧ m.last < n.first) ∧
    ∀ i g, f.comments[i]? = some g → (file f).at? [.group i] = some (commentGroup g) ∧
      ∀ place s, (file f).at? place = some (stmt s) → Precedes (file f).places place [.group i] := by
  have ordered := sorted.ordered (file f).anchors_forward
  rw [visited_preorder]
  refine ⟨rfl, enumerates_preorder _, ?_, ?_, fun i g group => ⟨?_, fun place s standing => ?_⟩⟩
  · rw [filter_file _ fun n commentary => by simp [commentary], List.pairwise_map]
    refine ((file_opens ordered).filter _).imp_of_mem fun {m n} mFound nFound opens => ?_
    have placed {n : Node} (found : n ∈ (file f :: (body f.body).preorder).filter
        fun n => !n.kind.isCommentary && n.first.isPlaced) : n.first.isPlaced = true := by
      simpa using (Bool.and_eq_true_iff.1 (List.mem_filter.1 found).2).2
    exact (opens (solid_of_first (placed mFound)) (solid_of_first (placed nFound))).1
  · rw [filter_file _ fun n commentary => Kind.isLeaf_of_isCommentary commentary,
      List.filter_cons_of_neg (by simp [kind, Kind.isLeaf])]
    exact leaves_apart (n := body f.body) (by simp) ordered
  · simp [at?, part?, group]
  · exact stmt_before_group standing group

/-- `x = a[i] + b.c // d` -/
def summedFile : File where
  name := "f.river"
  body := [.attribute ⟨"x", .ofOffset 0⟩ (.binary .add (.ofOffset 9)
    (.index (.ident ⟨"a", .ofOffset 4⟩) (.ident ⟨"i", .ofOffset 6⟩) (.ofOffset 5) (.ofOffset 7))
    (.access (.ident ⟨"b", .ofOffset 11⟩) ⟨"c", .ofOffset 13⟩))]
  comments := [[⟨.ofOffset 15, "// d"⟩]]

theorem visited_summedFile : Span.Ascending (file summedFile).anchors ∧
    (file summedFile).Enumerates (file summedFile).visited (file summedFile).places ∧
    (((file summedFile).visited.filter fun n => !n.kind.isCommentary && n.first.isPlaced).map
      first).Pairwise (· ≤ ·) ∧
    ((file summedFile).visited.filter (·.kind.isLeaf)).Pairwise
      (fun m n => m.first < n.first ∧ m.last < n.first) ∧
    Precedes (file summedFile).places [.body, .statement 0] [.group 0] := by
  have sorted : Span.Ascending (file summedFile).anchors := by decide
  obtain ⟨-, walked, starts, leaves, groups⟩ := visited_in_source_order sorted
  exact ⟨sorted, walked, starts, leaves, (groups 0 _ rfl).2 _ _ rfl⟩

end Node
end River
