import Mathlib.Data.List.Flatten
import River.Node.Anchor
import River.Proofs.Node.Preorder

/-! The span of a node goes from its first anchor to its last one, and the anchors of its children
are some of its own in the same order. -/
namespace River
namespace Span

theorem contains_iff {s : Span} {p : Pos} :
    s.contains p = true ↔ s.isPlaced = true ∧ p.isPlaced = true ∧ s.first ≤ p ∧ p ≤ s.last := by
  simp [contains, and_assoc]

def Forward (ranges : List Span) : Prop := ∀ a ∈ ranges, a.first ≤ a.last

@[simp] theorem forward_nil : Forward [] := nofun

@[simp] theorem forward_cons : Forward (a :: l) ↔ a.first ≤ a.last ∧ Forward l :=
  List.forall_mem_cons

@[simp] theorem forward_append : Forward (l ++ r) ↔ Forward l ∧ Forward r :=
  List.forall_mem_append

@[simp] theorem forward_flatMap {l : List α} {parts : α → List Span} :
    Forward (l.flatMap parts) ↔ ∀ x ∈ l, Forward (parts x) := by
  simp only [Forward, List.forall_mem_flatMap]

/-- Ranges with places, each of which ends no earlier than it starts and before all later ones. -/
structure Ordered (ranges : List Span) : Prop where
  placed : ∀ a ∈ ranges, a.isPlaced = true
  forward : Forward ranges
  apart : ranges.Pairwise fun a b => a.last < b.first

theorem Ordered.sublist (ordered : Ordered ranges) (some : part.Sublist ranges) : Ordered part where
  placed a member := ordered.placed a (some.subset member)
  forward a member := ordered.forward a (some.subset member)
  apart := ordered.apart.sublist some

/-- Neighbours in order are enough, since no range ends before it starts. -/
theorem Ascending.ordered (forward : Forward ranges) (ascending : Ascending ranges) :
    Ordered ranges := by
  induction ranges with
  | nil => exact ⟨nofun, nofun, .nil⟩
  | cons a ranges ih =>
    have later := forward_cons.1 forward
    cases ranges with
    | nil =>
      exact ⟨List.forall_mem_singleton.2 ascending, forward, List.pairwise_singleton _ _⟩
    | cons b ranges =>
      obtain ⟨placed, before, ascending⟩ := ascending
      have rest := ih later.2 ascending
      refine ⟨List.forall_mem_cons.2 ⟨placed, rest.placed⟩, forward,
        List.pairwise_cons.2 ⟨fun c member => ?_, rest.apart⟩⟩
      rcases List.mem_cons.1 member with rfl | member
      · exact before
      · have := (List.pairwise_cons.1 rest.apart).1 c member
        have := rest.forward b List.mem_cons_self
        simp only [Pos.lt_iff, Pos.le_iff] at *
        omega

/-- From the start of the first range to the end of the last one. -/
def hull (ranges : List Span) : Span := ⟨Node.firstOf first ranges, Node.lastOf last ranges⟩

theorem exists_hull_first (solid : ranges ≠ []) : ∃ a ∈ ranges, (hull ranges).first = a.first := by
  obtain ⟨a, rest, rfl⟩ := List.exists_cons_of_ne_nil solid
  exact ⟨a, List.mem_cons_self, rfl⟩

theorem exists_hull_last (solid : ranges ≠ []) : ∃ a ∈ ranges, (hull ranges).last = a.last := by
  refine ⟨ranges.getLast solid, List.getLast_mem solid, ?_⟩
  simp [hull, Node.lastOf, List.getLast?_eq_some_getLast solid]

/-- The first of ordered ranges starts first, the last one ends last. -/
theorem Ordered.within_hull (ordered : Ordered ranges) (member : a ∈ ranges) :
    a.Within (hull ranges) := by
  constructor
  · cases ranges with
    | nil => cases member
    | cons b rest =>
      rcases List.mem_cons.1 member with rfl | member
      · exact Nat.le_refl _
      · have := (List.pairwise_cons.1 ordered.apart).1 a member
        have := ordered.forward b List.mem_cons_self
        simp only [hull, Node.firstOf, List.head?_cons, Option.map_some, Option.getD_some,
          Pos.lt_iff, Pos.le_iff] at *
        omega
  · rcases List.eq_nil_or_concat ranges with rfl | ⟨rest, b, rfl⟩
    · cases member
    · have ends : (hull (rest.concat b)).last = b.last := by simp [hull, Node.lastOf]
      rw [ends]
      rw [List.concat_eq_append, List.mem_append, List.mem_singleton] at member
      rcases member with member | rfl
      · have apart := ordered.apart
        rw [List.concat_eq_append, List.pairwise_append] at apart
        have := apart.2.2 a member b (List.mem_singleton_self b)
        have := ordered.forward b (by simp)
        simp only [Pos.lt_iff, Pos.le_iff] at *
        omega
      · exact Nat.le_refl _

theorem Ordered.hull_placed (ordered : Ordered ranges) (solid : ranges ≠ []) :
    (hull ranges).isPlaced = true := by
  obtain ⟨a, aMember, starts⟩ := exists_hull_first solid
  obtain ⟨b, bMember, ends⟩ := exists_hull_last solid
  have aPlaced := ordered.placed a aMember
  have bPlaced := ordered.placed b bMember
  simp only [isPlaced, Bool.and_eq_true] at *
  exact ⟨starts ▸ aPlaced.1, ends ▸ bPlaced.2⟩

theorem Ordered.hull_forward (ordered : Ordered ranges) (solid : ranges ≠ []) :
    (hull ranges).first ≤ (hull ranges).last := by
  obtain ⟨a, member, starts⟩ := exists_hull_first solid
  have forward := ordered.forward a member
  have within := ordered.within_hull member
  simp only [Within, Pos.le_iff] at *
  omega

theorem Ordered.hull_within (ordered : Ordered ranges) (some : part.Sublist ranges)
    (solid : part ≠ []) : (hull part).Within (hull ranges) := by
  obtain ⟨a, aMember, starts⟩ := exists_hull_first solid
  obtain ⟨b, bMember, ends⟩ := exists_hull_last solid
  rw [Within, starts, ends]
  exact ⟨(ordered.within_hull (some.subset aMember)).1,
    (ordered.within_hull (some.subset bMember)).2⟩

theorem hull_before (before : ∀ a ∈ ranges, ∀ b ∈ later, a.last < b.first) (solid : ranges ≠ [])
    (laterSolid : later ≠ []) : (hull ranges).last < (hull later).first := by
  obtain ⟨a, aMember, ends⟩ := exists_hull_last solid
  obtain ⟨b, bMember, starts⟩ := exists_hull_first laterSolid
  rw [ends, starts]
  exact before a aMember b bMember

end Span

open Node (firstOf lastOf)

theorem firstOf_append (first : α → Pos) {l : List α} (solid : l ≠ []) (r : List α) :
    firstOf first (l ++ r) = firstOf first l := by
  obtain ⟨a, rest, rfl⟩ := List.exists_cons_of_ne_nil solid
  rfl

theorem lastOf_append (last : α → Pos) (l : List α) {r : List α} (solid : r ≠ []) :
    lastOf last (l ++ r) = lastOf last r := by
  simp [lastOf, List.getLast?_append, List.getLast?_eq_some_getLast solid]

theorem firstOf_flatMap (first : β → Pos) {parts : α → List β} (l : List α)
    (solid : ∀ a, parts a ≠ []) :
    firstOf first (l.flatMap parts) = firstOf (fun a => firstOf first (parts a)) l := by
  cases l with
  | nil => rfl
  | cons a l => exact firstOf_append first (solid a) _

theorem lastOf_flatMap (last : β → Pos) {parts : α → List β} (l : List α)
    (solid : ∀ a, parts a ≠ []) :
    lastOf last (l.flatMap parts) = lastOf (fun a => lastOf last (parts a)) l := by
  rcases List.eq_nil_or_concat l with rfl | ⟨l, a, rfl⟩
  · rfl
  · rw [List.concat_eq_append, List.flatMap_append, List.flatMap_singleton,
      lastOf_append last _ (solid a), lastOf_append _ _ (List.cons_ne_nil a [])]
    rfl

theorem Expr.anchors_ne_nil (e : Expr) : e.anchors ≠ [] := by
  cases e <;> simp [anchors]

theorem Stmt.ownAnchors_ne_nil (s : Stmt) : s.ownAnchors ≠ [] := by
  cases s <;> simp [ownAnchors]

theorem Expr.firstOf_anchors : (e : Expr) → firstOf Span.first e.anchors = e.first
  | ident _ | literal .. | array .. | object .. | unary .. | paren .. => by
    simp [anchors, firstOf, first, Ident.span, Span.point]
  | access value _ | index value _ _ _ | call value _ _ _ | binary _ _ value _ => by
    rw [anchors, firstOf_append _ value.anchors_ne_nil, value.firstOf_anchors, first]

theorem Expr.lastOf_anchors : (e : Expr) → lastOf Span.last e.anchors = e.last
  | ident _ | literal .. | array .. | object .. | access .. | index .. | call .. | paren .. => by
    simp [anchors, lastOf, last, Ident.span, Span.point, List.getLast?_cons, List.getLast?_append]
  | unary _ opPos value => by
    rw [anchors, ← List.singleton_append, lastOf_append _ _ value.anchors_ne_nil,
      value.lastOf_anchors, last]
  | binary _ opPos left right => by
    rw [anchors, List.append_cons, lastOf_append _ _ right.anchors_ne_nil, right.lastOf_anchors,
      last]

theorem Stmt.firstOf_ownAnchors (s : Stmt) : firstOf Span.first s.ownAnchors = s.first := by
  cases s <;> simp [ownAnchors, firstOf, first, Ident.span, Span.point]

theorem Stmt.lastOf_ownAnchors (s : Stmt) : lastOf Span.last s.ownAnchors = s.last := by
  cases s <;> simp [ownAnchors, lastOf, last, Ident.span, Span.point, List.getLast?_cons,
    List.getLast?_append]

theorem Expr.anchorsAll_eq (es : List Expr) : anchorsAll es = es.flatMap anchors := by
  induction es with
  | nil => rfl
  | cons e es ih => simp [anchorsAll, ih]

theorem Expr.anchorsFields_eq (fs : List Field) :
    anchorsFields fs = fs.flatMap fun f => f.name.span :: f.value.anchors := by
  induction fs with
  | nil => rfl
  | cons f fs ih =>
    obtain ⟨name, quoted, value⟩ := f
    simp [anchorsFields, anchorsField, ih]

theorem Stmt.anchorsAll_eq (ss : List Stmt) : anchorsAll ss = ss.flatMap anchors := by
  induction ss with
  | nil => rfl
  | cons s ss ih => simp [anchorsAll, ih]

theorem Stmt.ownAnchorsAll_eq (ss : List Stmt) : ownAnchorsAll ss = ss.flatMap ownAnchors := by
  induction ss with
  | nil => rfl
  | cons s ss ih => simp [ownAnchorsAll, ih]

namespace Node

/-- The span of a node follows from its own anchors, whatever their positions are. -/
theorem span_hull (n : Node) : n.span = Span.hull n.ownAnchors := by
  have body_hull (ss : List Stmt) : Span.hull (Stmt.ownAnchorsAll ss) =
      ⟨firstOf Stmt.first ss, lastOf Stmt.last ss⟩ := by
    rw [Span.hull, Stmt.ownAnchorsAll_eq, firstOf_flatMap _ _ Stmt.ownAnchors_ne_nil,
      lastOf_flatMap _ _ Stmt.ownAnchors_ne_nil]
    simp only [Stmt.firstOf_ownAnchors, Stmt.lastOf_ownAnchors]
  rcases n with f | ss | g | c | s | e
  · exact (body_hull f.body).symm
  · exact (body_hull ss).symm
  · rw [span, first, last, Span.hull, ownAnchors, firstOf, firstOf, lastOf, lastOf,
      List.head?_map, List.getLast?_map, Option.map_map, Option.map_map]
    rfl
  · rfl
  · rw [span, first, last, ← s.firstOf_ownAnchors, ← s.lastOf_ownAnchors]
    rfl
  · rw [span, first, last, ← e.firstOf_anchors, ← e.lastOf_anchors]
    rfl

/-- There is nothing in it that a span could be made of. -/
def Empty : Node → Prop
  | file f => f.body = []
  | body ss => ss = []
  | commentGroup g => g = []
  | _ => False

theorem span_of_empty {n : Node} (empty : n.Empty) : n.span = .nowhere := by
  rcases n with f | ss | g | c | s | e
  · simp [span, first, last, firstOf, lastOf, show f.body = [] from empty, Span.nowhere]
  · simp [span, first, last, firstOf, lastOf, show ss = [] from empty, Span.nowhere]
  · simp [span, first, last, firstOf, lastOf, show g = [] from empty, Span.nowhere]
  · exact empty.elim
  · exact empty.elim
  · exact empty.elim

theorem ownAnchors_ne_nil {n : Node} (solid : ¬n.Empty) : n.ownAnchors ≠ [] := by
  have body_solid {ss : List Stmt} (solid : ss ≠ []) : Stmt.ownAnchorsAll ss ≠ [] := by
    obtain ⟨s, rest, rfl⟩ := List.exists_cons_of_ne_nil solid
    simp [Stmt.ownAnchorsAll, s.ownAnchors_ne_nil]
  rcases n with f | ss | g | c | s | e
  · exact body_solid solid
  · exact body_solid solid
  · exact fun none => solid (List.map_eq_nil_iff.1 none)
  · exact List.cons_ne_nil _ _
  · exact s.ownAnchors_ne_nil
  · exact e.anchors_ne_nil

theorem anchors_forward (n : Node) : Span.Forward n.anchors := by
  have text (p : Pos) (t : String) : p ≤ textEnd p t := p.le_advance _
  have point (p : Pos) : p ≤ p := Nat.le_refl _
  induction n using byChildren with
  | step n ih =>
    rcases n with f | ss | g | c | s | e
    · exact ih (body f.body) List.mem_cons_self
    · simpa [children, anchors, Stmt.anchorsAll_eq] using ih
    · simp [anchors, Span.Forward, Comment.span, Comment.last, text]
    · simp [anchors, Comment.span, Comment.last, text]
    · cases s <;> simp_all [children, anchors, Stmt.anchors, Expr.anchors, Span.point]
    · cases e <;> simp_all [children, anchors, Expr.anchors, Expr.anchorsAll_eq,
        Expr.anchorsFields_eq, Ident.span, Ident.last, Span.point, or_imp, forall_and,
        -List.mem_flatMap, List.forall_mem_flatMap]

/-- The span of a node leaves out some of its anchors. -/
theorem ownAnchors_sublist (n : Node) : n.ownAnchors.Sublist n.anchors := by
  induction n using byChildren with
  | step n ih =>
    rcases n with f | ss | g | c | s | e
    · exact ih (body f.body) List.mem_cons_self
    · rw [ownAnchors, anchors, Stmt.ownAnchorsAll_eq, Stmt.anchorsAll_eq]
      exact .flatMap_right ss fun s below => ih (stmt s) (List.mem_map_of_mem below)
    · exact .refl _
    · exact .refl _
    · rcases s with ⟨name, value⟩ | ⟨_, _, _, ss, _, _⟩
      · exact List.sublist_append_left [name.span] value.anchors
      · have inner := ih (body ss) (List.mem_singleton_self _)
        exact ((inner.append_right _).cons_cons _).cons_cons _
    · exact .refl _

/-- Each child of a node has its anchors from the node, one child after the other. A file does not
have the anchors of its comments. -/
theorem children_sublist (single : ∀ f, n ≠ file f) :
    (n.children.flatMap anchors).Sublist n.anchors := by
  have enclosed (l r : Span) (inner : List Span) : inner.Sublist (l :: (inner ++ [r])) :=
    (List.sublist_append_left inner [r]).cons l
  rcases n with f | ss | g | c | s | e
  · exact absurd rfl (single f)
  · simp [children, anchors, List.flatMap_map, Stmt.anchorsAll_eq]
  · simp [children, anchors, List.flatMap_map, ← List.map_eq_flatMap]
  · simp [children, anchors]
  · rcases s with ⟨name, value⟩ | ⟨_, _, _, ss, _, _⟩
    · simp [children, anchors, Stmt.anchors, Expr.anchors]
    · simpa [children, anchors, Stmt.anchors] using (enclosed ..).cons _
  · cases e with
    | ident | literal => simp [children]
    | array => simp [children, anchors, List.flatMap_map, Expr.anchors, Expr.anchorsAll_eq, enclosed]
    | object =>
      simp [children, anchors, List.flatMap_assoc, Expr.anchors, Expr.anchorsFields_eq, enclosed]
    | access => simp [children, anchors, Expr.anchors]
    | index => simp [children, anchors, Expr.anchors, enclosed]
    | call =>
      simp [children, anchors, List.flatMap_map, Expr.anchors, Expr.anchorsAll_eq, enclosed]
    | unary => simp [children, anchors, Expr.anchors]
    | binary => simp [children, anchors, Expr.anchors]
    | paren => simp [children, anchors, Expr.anchors, enclosed]

theorem child_sublist (single : ∀ f, n ≠ file f) (below : c ∈ n.children) :
    c.anchors.Sublist n.anchors := by
  have some := (List.singleton_sublist.2 below).flatMap anchors
  rw [List.flatMap_singleton] at some
  exact some.trans (children_sublist single)

theorem child_ne_file {c n : Node} (below : c ∈ n.children) : ∀ f, c ≠ file f := by
  rintro f rfl
  have holds := holds_child below
  rw [kind, Kind.not_holds_file] at holds
  cases holds

theorem below_sublist {root : Node} (single : ∀ f, root ≠ file f) (below : n ∈ root.preorder) :
    n.anchors.Sublist root.anchors := by
  induction root using byChildren with
  | step root ih =>
    rcases mem_preorder.1 below with rfl | ⟨c, child, below⟩
    · exact .refl _
    · exact (ih c child (child_ne_file child) below).trans (child_sublist single child)

/-- A node of a file has its anchors from the file or from a group of its comments. -/
theorem below_file {f : File} (below : n ∈ (file f).preorder) :
    n.anchors.Sublist (file f).anchors ∨
      ∃ g ∈ f.comments, n.anchors.Sublist (commentGroup g).anchors := by
  rcases mem_preorder.1 below with rfl | ⟨c, child, below⟩
  · exact .inl (.refl _)
  · have part := below_sublist (child_ne_file child) below
    rcases List.mem_cons.1 child with rfl | child
    · exact .inl part
    · obtain ⟨g, member, rfl⟩ := List.mem_map.1 child
      exact .inr ⟨g, member, part⟩

theorem SourceOrdered.ordered {root : Node} (sorted : root.SourceOrdered)
    (below : n ∈ root.preorder) : Span.Ordered n.anchors := by
  have whole := sorted.anchors.ordered root.anchors_forward
  by_cases isFile : ∃ f, root = file f
  · obtain ⟨f, rfl⟩ := isFile
    rcases below_file below with part | ⟨g, member, part⟩
    · exact whole.sublist part
    · have listed : commentGroup g ∈ (file f).preorder :=
        mem_preorder.2 (.inr ⟨_, List.mem_cons_of_mem _ (List.mem_map_of_mem member),
          mem_preorder.2 (.inl rfl)⟩)
      exact ((sorted.comments g listed).ordered (commentGroup g).anchors_forward).sublist part
  · exact whole.sublist (below_sublist (not_exists.1 isFile) below)

end Node
end River
