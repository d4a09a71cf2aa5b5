import River.Node

/-! The visits of a walk. Equal nodes can stand at several places of a tree, and how deep a node is
shown depends on what is above it: a visit is a node with its place. -/
namespace River

/-- The children; the names of the members of an object come with their members. -/
def Node.limbs : Node → List (Option Field × Node)
  | .expr (.object fs _ _) => fs.flatMap fun f => [(some f, .ident f.name), (none, .expr f.value)]
  | n => n.children.map (none, ·)

theorem Node.limbs_children (n : Node) : n.limbs.map (·.2) = n.children := by
  unfold limbs
  split
  · simp [children, List.map_flatMap]
  · simp [Function.comp_def]

/-- What is above a node stands in `above`, its parent first. The path numbers the children that
lead to it, the last one first. -/
structure Visit where
  node : Node
  above : List Node
  path : List Nat
  member? : Option Field
  deriving DecidableEq

namespace Visit

def next (v : Visit) : List Visit :=
  v.node.limbs.zipIdx.map fun l => ⟨l.1.2, v.node :: v.above, l.2 :: v.path, l.1.1⟩

theorem sizeOf_next {u v : Visit} (below : u ∈ v.next) : sizeOf u.node < sizeOf v.node := by
  obtain ⟨l, limb, rfl⟩ := List.mem_map.mp below
  refine Node.sizeOf_child ?_
  rw [← Node.limbs_children]
  exact List.mem_map_of_mem (List.fst_mem_of_mem_zipIdx limb)

def preorder (v : Visit) : List Visit :=
  v :: v.next.attach.flatMap fun u => u.val.preorder
termination_by sizeOf v.node
decreasing_by exact sizeOf_next u.property

/-- The depth in the tree, and once more the number of the objects above. -/
def level (v : Visit) : Nat := v.above.length + v.above.countP (·.kind = .object)

/-- Visits of the groups of comments of a file, and of their comments. -/
def isRemark (v : Visit) : Bool :=
  match v.node, v.above with
  | .commentGroup _, .file _ :: _ => true
  | .comment _, .commentGroup _ :: .file _ :: _ => true
  | _, _ => false

/-- The first visit is the one of a child of what the second one visits. -/
def isChildOf (v u : Visit) : Bool :=
  match v.path with
  | [] => false
  | _ :: path => path = u.path

/-- The name of a member is visited right below the object that has the member. -/
def Names (v : Visit) (f : Field) : Prop :=
  v.member? = some f ∧ v.node = .ident f.name ∧
    ∃ fs l r above, v.above = .expr (.object fs l r) :: above ∧ f ∈ fs

end Visit

/-- The visits of a walk in their order. -/
def Node.visits (n : Node) : List Visit := Visit.preorder ⟨n, [], [], none⟩

end River
