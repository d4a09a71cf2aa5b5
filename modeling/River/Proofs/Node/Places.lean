import Mathlib.Data.List.Perm.Basic
import Mathlib.Data.List.Sigma
import River.Node.Place
import River.Proofs.Node.Postorder

/-! Every place of a tree is listed once, in preorder and in postorder. What stands at the places of
the list are the nodes of the traversal, so no traversal leaves out a node or has it twice. -/
namespace River.Node

variable {n c : Node} {place : Place} {slot : Slot}

theorem mem_numbered {number : Nat → Slot} {nodes : List Node} :
    (slot, c) ∈ numbered number nodes ↔ ∃ i, slot = number i ∧ nodes[i]? = some c := by
  simp only [numbered, List.mem_map, Prod.mk.injEq, Prod.exists, List.mem_zipIdx_iff_getElem?]
  constructor
  · rintro ⟨d, i, entry, rfl, rfl⟩
    exact ⟨i, rfl, entry⟩
  · rintro ⟨i, rfl, entry⟩
    exact ⟨c, i, entry, rfl, rfl⟩

/-- The parts are what the slots are for, and no part is left out. -/
theorem mem_parts : (slot, c) ∈ n.parts ↔ n.part? slot = some c := by
  rcases n with f | ss | g | d | s | e
  · cases slot <;> simp [parts, part?, mem_numbered, eq_comm]
  · cases slot <;> simp [parts, part?, mem_numbered]
  · cases slot <;> simp [parts, part?, mem_numbered]
  · simp [parts, part?]
  · cases s <;> cases slot <;> simp [parts, part?, eq_comm]
  · cases e <;> cases slot <;> simp [parts, part?, Expr.part?, mem_numbered,
      List.mem_zipIdx_iff_getElem?, eq_comm (a := c)]

theorem zipIdx_apart (l : List α) : l.zipIdx.Pairwise fun a b => a.2 ≠ b.2 :=
  List.pairwise_map.1 (List.nodup_zipIdx_map_snd l)

theorem numbered_apart {number : Nat → Slot} (injective : ∀ i j, number i = number j → i = j)
    (nodes : List Node) : (numbered number nodes).Pairwise fun a b => a.1 ≠ b.1 :=
  List.pairwise_map.2 ((zipIdx_apart nodes).imp fun differ same => differ (injective _ _ same))

theorem cons_numbered_apart {number : Nat → Slot}
    (injective : ∀ i j, number i = number j → i = j) (other : ∀ i, slot ≠ number i)
    (c : Node) (nodes : List Node) :
    ((slot, c) :: numbered number nodes).Pairwise fun a b => a.1 ≠ b.1 := by
  refine List.pairwise_cons.2 ⟨fun part below => ?_, numbered_apart injective nodes⟩
  obtain ⟨i, numbered, -⟩ := mem_numbered.1 below
  rw [numbered]
  exact other i

theorem parts_apart (n : Node) : n.parts.Pairwise fun a b => a.1 ≠ b.1 := by
  rcases n with f | ss | g | c | s | e
  · exact cons_numbered_apart (by simp) (by simp) _ _
  · exact numbered_apart (by simp) _
  · exact numbered_apart (by simp) _
  · exact .nil
  · cases s <;> simp [parts]
  · cases e with
    | array => exact numbered_apart (by simp) _
    | object fs =>
      refine List.pairwise_flatMap.2 ⟨fun f _ => by simp, (zipIdx_apart fs).imp fun differ => ?_⟩
      simp [differ]
    | call => exact cons_numbered_apart (by simp) (by simp) _ _
    | _ => simp [parts]

@[simp] theorem at?_root (n : Node) : n.at? [] = some n := rfl

theorem at?_cons (n : Node) (slot : Slot) (place : Place) :
    n.at? (slot :: place) = (n.part? slot).bind (·.at? place) := rfl

/-- What is below a node stands in the tree where it stands below the node. -/
theorem at?_append (n : Node) (place rest : Place) :
    n.at? (place ++ rest) = (n.at? place).bind (·.at? rest) := by
  induction place generalizing n with
  | nil => rfl
  | cons slot place ih =>
    rw [List.cons_append, at?_cons, at?_cons]
    cases n.part? slot with
    | none => rfl
    | some c => exact ih c

theorem places_eq (n : Node) :
    n.places = [] :: n.parts.flatMap fun part => part.2.places.map (part.1 :: ·) := by
  rw [places, List.flatMap_subtype (g := fun part => part.2.places.map (part.1 :: ·))
    fun _ _ => rfl, List.unattach_attach]

theorem placesPost_eq (n : Node) :
    n.placesPost = (n.parts.flatMap fun part => part.2.placesPost.map (part.1 :: ·)) ++ [[]] := by
  rw [placesPost, List.flatMap_subtype (g := fun part => part.2.placesPost.map (part.1 :: ·))
    fun _ _ => rfl, List.unattach_attach]

theorem mem_places : place ∈ n.places ↔ (n.at? place).isSome = true := by
  induction place generalizing n with
  | nil => rw [places_eq, at?_root, List.mem_cons]; simp
  | cons slot place ih =>
    have below : slot :: place ∈ n.places ↔ ∃ c, (slot, c) ∈ n.parts ∧ place ∈ c.places := by
      rw [places_eq]
      simp only [List.mem_cons, reduceCtorEq, false_or, List.mem_flatMap, List.mem_map,
        List.cons.injEq, Prod.exists]
      constructor
      · rintro ⟨_, c, part, rest, member, rfl, rfl⟩
        exact ⟨c, part, member⟩
      · rintro ⟨c, part, member⟩
        exact ⟨slot, c, part, place, member, rfl, rfl⟩
    rw [below, at?_cons, Option.isSome_bind]
    cases part : n.part? slot with
    | none => simp [mem_parts, part]
    | some c => simp [mem_parts, part, ih]

/-- Of two places that lead to each other the shorter one is listed first. -/
theorem places_above (n : Node) : n.places.Pairwise fun p q => ¬q <+: p := by
  induction n using byChildren with
  | step n ih =>
    rw [places_eq, List.pairwise_cons, List.pairwise_flatMap]
    refine ⟨fun q below => ?_, fun part member => ?_, ?_⟩
    · obtain ⟨part, -, below⟩ := List.mem_flatMap.1 below
      obtain ⟨rest, -, rfl⟩ := List.mem_map.1 below
      simp
    · have apart := ih part.2 (child_of_part member)
      exact List.pairwise_map.2 (apart.imp fun other inside =>
        other (List.cons_prefix_cons.1 inside).2)
    · refine (parts_apart n).imp fun differ p pBelow q qBelow inside => differ ?_
      obtain ⟨_, -, rfl⟩ := List.mem_map.1 pBelow
      obtain ⟨_, -, rfl⟩ := List.mem_map.1 qBelow
      exact (List.cons_prefix_cons.1 inside).1.symm

theorem places_nodup (n : Node) : n.places.Nodup :=
  (places_above n).imp fun {p q} apart (same : p = q) => apart (same ▸ List.prefix_refl p)

/-- What is below a place is listed after it. -/
theorem later_of_below (split : n.places = earlier ++ place :: later)
    (standing : (n.at? (place ++ rest)).isSome = true) (below : rest ≠ []) :
    place ++ rest ∈ later := by
  have listed := mem_places.2 standing
  have above := places_above n
  rw [split, List.pairwise_append] at above
  rw [split, List.mem_append, List.mem_cons] at listed
  rcases listed with before | same | after
  · have apart := above.2.2 _ before place List.mem_cons_self
    exact absurd (List.prefix_append place rest) apart
  · exact absurd (List.append_right_eq_self.1 same) below
  · exact after

theorem placesPost_perm (n : Node) : n.placesPost.Perm n.places := by
  induction n using byChildren with
  | step n ih =>
    rw [placesPost_eq, places_eq]
    refine (List.perm_append_singleton _ _).trans
      (.cons [] (List.Perm.flatMap_left n.parts fun part member => ?_))
    exact (ih part.2 (child_of_part member)).map _

/-- The nodes are those of a tree, each of them at a place of its own, and no place is left out. -/
structure Enumerates (n : Node) (nodes : List Node) (places : List Place) : Prop where
  distinct : places.Nodup
  complete : ∀ place, place ∈ places ↔ (n.at? place).isSome = true
  standing : places.map n.at? = nodes.map some

theorem nodes_below {list : Node → List Place} {nodes : Node → List Node}
    (each : ∀ c ∈ n.children, (list c).map c.at? = (nodes c).map some) :
    (n.parts.flatMap fun part => (list part.2).map (part.1 :: ·)).map n.at? =
      (n.children.flatMap nodes).map some := by
  rw [← parts_children, List.flatMap_map, List.map_flatMap, List.map_flatMap]
  refine List.flatMap_congr fun part member => ?_
  rw [List.map_map, ← each part.2 (child_of_part member)]
  refine List.map_congr_left fun rest _ => ?_
  rw [Function.comp_apply, at?_cons, mem_parts.1 member, Option.bind_some]

theorem places_nodes (n : Node) : n.places.map n.at? = n.preorder.map some := by
  induction n using byChildren with
  | step n ih =>
    rw [places_eq, preorder_children, List.map_cons, nodes_below ih, List.map_cons, at?_root]

theorem placesPost_nodes (n : Node) : n.placesPost.map n.at? = n.postorder.map some := by
  induction n using byChildren with
  | step n ih =>
    rw [placesPost_eq, postorder_children, List.map_append, nodes_below ih, List.map_append]
    rfl

theorem mem_preorder_at? : c ∈ n.preorder ↔ ∃ place, n.at? place = some c := by
  have listed : some c ∈ n.places.map n.at? ↔ c ∈ n.preorder := by
    rw [places_nodes]
    exact List.mem_map_of_injective fun _ _ => Option.some.inj
  rw [← listed, List.mem_map]
  refine exists_congr fun place => and_iff_right_of_imp fun standing => ?_
  rw [mem_places, standing, Option.isSome_some]

theorem enumerates_preorder (n : Node) : n.Enumerates n.preorder n.places where
  distinct := places_nodup n
  complete _ := mem_places
  standing := places_nodes n

theorem enumerates_postorder (n : Node) : n.Enumerates n.postorder n.placesPost where
  distinct := (placesPost_perm n).nodup_iff.2 (places_nodup n)
  complete _ := (placesPost_perm n).mem_iff.trans mem_places
  standing := placesPost_nodes n

end River.Node
