import Mathlib.Data.List.Flatten
import Mathlib.Data.List.Pairwise
import River.Proofs.Node.Places

/-! The two walks over a tree side by side. They visit the same places; what is below a place comes
after it in one and before it in the other, and places that are not below each other come in the
same order in both. -/
namespace River

/-- `a` stands before `b`. Meant for lists in which nothing stands twice. -/
def Precedes (l : List α) (a b : α) : Prop := [a, b].Sublist l

namespace Precedes

variable {l : List α} {a b : α}

theorem mem_left (before : Precedes l a b) : a ∈ l := before.mem List.mem_cons_self

theorem mem_right (before : Precedes l a b) : b ∈ l :=
  before.mem (List.mem_cons_of_mem a List.mem_cons_self)

theorem pairwise (l : List α) : l.Pairwise (Precedes l) :=
  List.pairwise_iff_forall_sublist.2 id

theorem total (left : a ∈ l) (right : b ∈ l) (differ : a ≠ b) :
    Precedes l a b ∨ Precedes l b a := by
  have : Std.Symm fun a b : α => Precedes l a b ∨ Precedes l b a := ⟨fun _ _ => Or.symm⟩
  have either : l.Pairwise fun a b => Precedes l a b ∨ Precedes l b a := (pairwise l).imp .inl
  exact either.forall left right differ

theorem not_reverse (distinct : l.Nodup) (before : Precedes l a b) : ¬Precedes l b a := by
  induction l with
  | nil => cases before
  | cons x l ih =>
    obtain ⟨fresh, distinct⟩ := List.nodup_cons.1 distinct
    intro after
    cases before with
    | cons _ before =>
      cases after with
      | cons _ after => exact ih distinct before after
      | cons_cons _ after => exact fresh (mem_right before)
    | cons_cons _ before =>
      cases after with
      | cons _ after => exact fresh (mem_right after)
      | cons_cons _ after => exact fresh (List.singleton_sublist.1 before)

theorem mono (before : Precedes l a b) (inside : l.Sublist k) : Precedes k a b :=
  before.trans inside

theorem map (f : α → β) (before : Precedes l a b) : Precedes (l.map f) (f a) (f b) :=
  List.Sublist.map f before

/-- What comes from an earlier item is listed before what comes from a later one. -/
theorem flatMap {f : α → List β} {x y : β} (before : Precedes l a b) (first : x ∈ f a)
    (second : y ∈ f b) : Precedes (l.flatMap f) x y := by
  have parts : (f a ++ f b).Sublist (l.flatMap f) := by
    simpa using List.Sublist.flatMap before f
  exact ((List.singleton_sublist.2 first).append (List.singleton_sublist.2 second)).trans parts

end Precedes

namespace Node

variable {n : Node} {place p q rest : Place} {slot : Slot} {part : Slot × Node}

theorem part_sublist (list : Node → List Place) (member : part ∈ n.parts) :
    ((list part.2).map (part.1 :: ·)).Sublist
      (n.parts.flatMap fun part => (list part.2).map (part.1 :: ·)) := by
  have one := (List.singleton_sublist.2 member).flatMap
    fun part => (list part.2).map (part.1 :: ·)
  rwa [List.flatMap_singleton] at one

theorem part_places (member : part ∈ n.parts) :
    (part.2.places.map (part.1 :: ·)).Sublist n.places := by
  rw [places_eq n]
  exact (part_sublist places member).trans (List.sublist_cons_self _ _)

theorem part_placesPost (member : part ∈ n.parts) :
    (part.2.placesPost.map (part.1 :: ·)).Sublist n.placesPost := by
  rw [placesPost_eq n]
  exact (part_sublist placesPost member).trans (List.sublist_append_left _ _)

theorem mem_placesPost : place ∈ n.placesPost ↔ (n.at? place).isSome = true :=
  (placesPost_perm n).mem_iff.trans mem_places

theorem placesPost_nodup (n : Node) : n.placesPost.Nodup :=
  (placesPost_perm n).nodup_iff.2 (places_nodup n)

theorem standing_cons : (n.at? (slot :: place)).isSome = true ↔
    ∃ c, (slot, c) ∈ n.parts ∧ (c.at? place).isSome = true := by
  rw [at?_cons, Option.isSome_bind, Option.any_eq_true]
  simp only [mem_parts]

/-- What relates a root to all that is below it, and goes from the parts up to the whole, relates
every place to what is below it. -/
theorem below_of_part {R : Node → Place → Place → Prop}
    (root : ∀ n rest, rest ≠ [] → (n.at? rest).isSome = true → R n [] rest)
    (whole : ∀ n slot c p q, (slot, c) ∈ n.parts → R c p q → R n (slot :: p) (slot :: q))
    (below : rest ≠ []) (standing : (n.at? (place ++ rest)).isSome = true) :
    R n place (place ++ rest) := by
  induction place generalizing n with
  | nil => exact root n rest below standing
  | cons slot place ih =>
    obtain ⟨c, member, standing⟩ := standing_cons.1 standing
    exact whole n slot c _ _ member (ih standing)

theorem places_below (below : rest ≠ []) (standing : (n.at? (place ++ rest)).isSome = true) :
    Precedes n.places place (place ++ rest) := by
  refine below_of_part (R := fun n p q => Precedes n.places p q) (fun n rest below standing => ?_)
    (fun n slot c p q member before => ?_) below standing
  · have listed := mem_places.2 standing
    rw [places_eq, List.mem_cons, or_iff_right below] at listed
    rw [places_eq]
    exact (List.singleton_sublist.2 listed).cons_cons []
  · exact (before.map (slot :: ·)).mono (part_places member)

theorem placesPost_below (below : rest ≠ []) (standing : (n.at? (place ++ rest)).isSome = true) :
    Precedes n.placesPost (place ++ rest) place := by
  refine below_of_part (R := fun n p q => Precedes n.placesPost q p)
    (fun n rest below standing => ?_) (fun n slot c p q member before => ?_) below standing
  · have listed := mem_placesPost.2 standing
    rw [placesPost_eq, List.mem_append, List.mem_singleton, or_iff_left below] at listed
    rw [placesPost_eq]
    exact (List.singleton_sublist.2 listed).append (List.Sublist.refl [[]])
  · exact (before.map (slot :: ·)).mono (part_placesPost member)

/-- What a walk comes to later is below, or comes later after the children too. -/
theorem places_keep_order (n : Node) :
    n.places.Pairwise fun p q => p <+: q ∨ Precedes n.placesPost p q := by
  induction n using byChildren with
  | step n ih =>
    rw [places_eq, List.pairwise_cons, List.pairwise_flatMap]
    refine ⟨fun q _ => .inl List.nil_prefix, fun part member => ?_, ?_⟩
    · have inside := ih part.2 (child_of_part member)
      refine List.pairwise_map.2 (inside.imp fun order => order.imp ?_ fun later => ?_)
      · exact fun above => List.cons_prefix_cons.2 ⟨rfl, above⟩
      · exact (later.map (part.1 :: ·)).mono (part_placesPost member)
    · -- the places of an earlier part all come before those of a later one
      refine (Precedes.pairwise n.parts).imp fun {s t} order p pBelow q qBelow => .inr ?_
      obtain ⟨p, pListed, rfl⟩ := List.mem_map.1 pBelow
      obtain ⟨q, qListed, rfl⟩ := List.mem_map.1 qBelow
      have below := order.flatMap (f := fun part => part.2.placesPost.map (part.1 :: ·))
        (List.mem_map_of_mem ((placesPost_perm s.2).mem_iff.2 pListed))
        (List.mem_map_of_mem ((placesPost_perm t.2).mem_iff.2 qListed))
      rw [placesPost_eq]
      exact below.mono (List.sublist_append_left _ _)

theorem precedes_iff (notAbove : ¬p <+: q) (notBelow : ¬q <+: p) :
    Precedes n.places p q ↔ Precedes n.placesPost p q := by
  have forward : ∀ {p q}, ¬p <+: q → Precedes n.places p q → Precedes n.placesPost p q :=
    fun apart before =>
      (List.pairwise_iff_forall_sublist.1 (places_keep_order n) before).resolve_left apart
  refine ⟨forward notAbove, fun before => ?_⟩
  have differ : p ≠ q := fun same => notAbove (same ▸ List.prefix_refl p)
  have left := (placesPost_perm n).mem_iff.1 before.mem_left
  have right := (placesPost_perm n).mem_iff.1 before.mem_right
  refine (Precedes.total left right differ).resolve_right fun reverse => ?_
  exact before.not_reverse (placesPost_nodup n) (forward notBelow reverse)

def childless (n : Node) : Bool := n.children.isEmpty

def childlessAt (n : Node) (place : Place) : Bool := (n.at? place).any childless

theorem eq_of_childless (bare : n.childlessAt p = true) (standing : (n.at? q).isSome = true)
    (above : p <+: q) : p = q := by
  obtain ⟨rest, rfl⟩ := above
  obtain ⟨c, here, none⟩ := (Option.any_eq_true _ _).1 bare
  cases rest with
  | nil => exact (List.append_nil p).symm
  | cons slot rest =>
    rw [at?_append, here, Option.bind_some] at standing
    obtain ⟨d, member, -⟩ := standing_cons.1 standing
    have child : d ∈ c.children := child_of_part member
    exact absurd (List.isEmpty_iff.1 none) (List.ne_nil_of_mem child)

/-- Nodes without children are not below each other, so they are in the same order in both walks. -/
theorem childless_places (n : Node) :
    n.placesPost.filter n.childlessAt = n.places.filter n.childlessAt := by
  have inOrder : (n.placesPost.filter n.childlessAt).Pairwise (Precedes n.places) := by
    refine List.pairwise_iff_forall_sublist.2 fun {p q} order => ?_
    have before : Precedes n.placesPost p q := order.trans List.filter_sublist
    have differ : p ≠ q := fun same => before.not_reverse (placesPost_nodup n) (same ▸ before)
    have left := List.mem_filter.1 (Precedes.mem_left order)
    have right := List.mem_filter.1 (Precedes.mem_right order)
    refine (precedes_iff (fun above => differ ?_) fun above => differ.symm ?_).2 before
    · exact eq_of_childless left.2 (mem_placesPost.1 right.1) above
    · exact eq_of_childless right.2 (mem_placesPost.1 left.1) above
  refine List.Perm.eq_of_pairwise (fun p q _ _ before after => ?_) inOrder
    ((Precedes.pairwise n.places).filter _) ((placesPost_perm n).filter _)
  exact absurd after (Precedes.not_reverse (places_nodup n) before)

theorem Enumerates.childless {nodes : List Node} {places : List Place}
    (listed : n.Enumerates nodes places) :
    (places.filter n.childlessAt).map n.at? = (nodes.filter childless).map some := by
  have standing := congrArg (List.filter (Option.any Node.childless)) listed.standing
  rwa [List.filter_map, List.filter_map] at standing

theorem run_note (nodes seen : List Node) : ((nodes.forM note).run seen).2 = seen ++ nodes := by
  induction nodes generalizing seen with
  | nil => exact (List.append_nil seen).symm
  | cons c nodes ih =>
    apply (ih _).trans
    exact List.append_assoc seen [c] nodes

theorem visited_preorder (n : Node) : n.visited = n.preorder := by
  rw [visited, walk_preorder, run_note, List.nil_append]

theorem visitedPost_postorder (n : Node) : n.visitedPost = n.postorder := by
  rw [visitedPost, walkPost_postorder, run_note, List.nil_append]

theorem postorder_perm (n : Node) : n.postorder.Perm n.preorder := by
  have same := (placesPost_perm n).map n.at?
  rw [places_nodes, placesPost_nodes] at same
  exact (List.map_perm_map_iff (fun _ _ => Option.some.inj)).1 same

/-- Both walks visit the same places. In one of them a place comes before all that is below it, in
the other after it; places that are not below each other come in the same order in both, and so do
the nodes without children. -/
theorem walks_agree (n : Node) :
    n.Enumerates n.visited n.places ∧ n.Enumerates n.visitedPost n.placesPost ∧
    n.placesPost.Perm n.places ∧ n.visitedPost.Perm n.visited ∧
    (∀ place rest, rest ≠ [] → (n.at? (place ++ rest)).isSome = true →
      Precedes n.places place (place ++ rest) ∧ Precedes n.placesPost (place ++ rest) place) ∧
    (∀ p q, ¬p <+: q → ¬q <+: p → (Precedes n.places p q ↔ Precedes n.placesPost p q)) ∧
    n.placesPost.filter n.childlessAt = n.places.filter n.childlessAt ∧
    n.visitedPost.filter childless = n.visited.filter childless := by
  rw [visited_preorder, visitedPost_postorder]
  have pre := enumerates_preorder n
  have post := enumerates_postorder n
  refine ⟨pre, post, placesPost_perm n, postorder_perm n, fun place rest below standing => ?_,
    fun p q => precedes_iff, childless_places n, ?_⟩
  · exact ⟨places_below below standing, placesPost_below below standing⟩
  · have nodes := post.childless
    rw [childless_places, pre.childless] at nodes
    exact (List.map_injective_iff.2 (fun _ _ => Option.some.inj) nodes).symm

/-- `f(x, x)` -/
def callTwice : Node :=
  expr (.call (.ident ⟨"f", .unplaced⟩) [.ident ⟨"x", .unplaced⟩, .ident ⟨"x", .unplaced⟩]
    .unplaced .unplaced)

/-- The arguments are equal, but they stand at places of their own. -/
theorem callTwice_walks : ([.argument 1] : Place) ≠ [] ∧
    (callTwice.at? ([] ++ [.argument 1])).isSome = true ∧
    Precedes callTwice.places [] [.argument 1] ∧ Precedes callTwice.placesPost [.argument 1] [] ∧
    ¬([.argument 0] : Place) <+: [.argument 1] ∧ ¬([.argument 1] : Place) <+: [.argument 0] ∧
    Precedes callTwice.placesPost [.argument 0] [.argument 1] := by
  have places : callTwice.places = [[], [.value], [.argument 0], [.argument 1]] := by
    have leaf (id : Ident) : (ident id).places = [[]] := by
      rw [places_eq]
      rfl
    rw [places_eq]
    simp [callTwice, parts, numbered, leaf]
  obtain ⟨-, -, -, -, below, apart, -⟩ := walks_agree callTwice
  have last := below [] [.argument 1] (by decide) rfl
  have first : Precedes callTwice.places [.argument 0] [.argument 1] := by
    rw [places, Precedes]
    decide
  exact ⟨by decide, rfl, last.1, last.2, by decide, by decide,
    (apart _ _ (by decide) (by decide)).1 first⟩

end Node
end River
