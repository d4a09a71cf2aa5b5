import River.Node

/-! Where a node stands in a tree. The syntax has a slot for each part of a node; the slots that lead
to a node from the root are its place, which tells equal nodes apart. -/
namespace River

/-- The parts of the syntax that are nodes. Where there can be several, they are numbered. -/
inductive Slot where
  | body | group (i : Nat) | comment (i : Nat) | statement (i : Nat)
  | name | value | index | left | right
  | element (i : Nat) | key (i : Nat) | member (i : Nat) | argument (i : Nat)
  deriving DecidableEq

abbrev Place := List Slot

/-- The part of an expression that a slot is for. The value is what an access, an index, a call or an
operator is applied to, and what is in parentheses. -/
def Expr.part? : Expr → Slot → Option Node
  | .array es _ _, .element i => es[i]?.map .expr
  | .object fs _ _, .key i => fs[i]?.map fun f => .ident f.name
  | .object fs _ _, .member i => fs[i]?.map fun f => .expr f.value
  | .access value _, .value => some (.expr value)
  | .access _ name, .name => some (.ident name)
  | .index value _ _ _, .value => some (.expr value)
  | .index _ i _ _, .index => some (.expr i)
  | .call callee _ _ _, .value => some (.expr callee)
  | .call _ args _ _, .argument i => args[i]?.map .expr
  | .unary _ _ value, .value => some (.expr value)
  | .binary _ _ left _, .left => some (.expr left)
  | .binary _ _ _ right, .right => some (.expr right)
  | .paren inner _ _, .value => some (.expr inner)
  | _, _ => none

namespace Node

def part? : Node → Slot → Option Node
  | file f, .body => some (body f.body)
  | file f, .group i => f.comments[i]?.map commentGroup
  | body ss, .statement i => ss[i]?.map stmt
  | commentGroup g, .comment i => g[i]?.map comment
  | stmt (.attribute name _), .name => some (ident name)
  | stmt (.attribute _ value), .value => some (expr value)
  | stmt (.block _ _ _ ss _ _), .body => some (body ss)
  | expr e, slot => e.part? slot
  | _, _ => none

/-- The node at a place; the root has the empty one. -/
def at? (n : Node) : Place → Option Node
  | [] => some n
  | slot :: place => (n.part? slot).bind (·.at? place)

def numbered (slot : Nat → Slot) (nodes : List Node) : List (Slot × Node) :=
  nodes.zipIdx.map fun c => (slot c.2, c.1)

/-- The parts of a node in the order in which the syntax writes them. -/
def parts : Node → List (Slot × Node)
  | file f => (.body, body f.body) :: numbered .group (f.comments.map commentGroup)
  | body ss => numbered .statement (ss.map stmt)
  | commentGroup g => numbered .comment (g.map comment)
  | comment _ => []
  | stmt (.attribute name value) => [(.name, ident name), (.value, expr value)]
  | stmt (.block _ _ _ ss _ _) => [(.body, body ss)]
  | expr (.ident _) => []
  | expr (.literal ..) => []
  | expr (.array es _ _) => numbered .element (es.map expr)
  | expr (.object fs _ _) =>
    fs.zipIdx.flatMap fun f => [(.key f.2, ident f.1.name), (.member f.2, expr f.1.value)]
  | expr (.access value name) => [(.value, expr value), (.name, ident name)]
  | expr (.index value i _ _) => [(.value, expr value), (.index, expr i)]
  | expr (.call callee args _ _) => (.value, expr callee) :: numbered .argument (args.map expr)
  | expr (.unary _ _ value) => [(.value, expr value)]
  | expr (.binary _ _ left right) => [(.left, expr left), (.right, expr right)]
  | expr (.paren inner _ _) => [(.value, expr inner)]

@[simp] theorem numbered_nodes (slot : Nat → Slot) (nodes : List Node) :
    (numbered slot nodes).map (·.2) = nodes := by
  rw [numbered, List.map_map]
  exact List.zipIdx_map_fst 0 nodes

theorem parts_children (n : Node) : n.parts.map (·.2) = n.children := by
  rcases n with f | ss | g | c | s | e
  · simp [parts, children]
  · simp [parts, children]
  · simp [parts, children]
  · rfl
  · cases s <;> rfl
  · cases e with
    | array | call => simp [parts, children]
    | object fs =>
      let nodes (f : Field) := [ident f.name, expr f.value]
      calc (parts (.expr (.object fs _ _))).map (·.2)
        _ = (fs.zipIdx.map (·.1)).flatMap nodes := by
          rw [parts, List.map_flatMap, List.flatMap_map]
          rfl
        _ = fs.flatMap nodes := by rw [List.zipIdx_map_fst]
    | _ => rfl

theorem child_of_part {n : Node} {part : Slot × Node} (below : part ∈ n.parts) :
    part.2 ∈ n.children :=
  parts_children n ▸ List.mem_map_of_mem below

/-- The places of a tree, a node before what is below it. -/
def places (n : Node) : List Place :=
  [] :: n.parts.attach.flatMap fun part => part.val.2.places.map (part.val.1 :: ·)
termination_by sizeOf n
decreasing_by exact sizeOf_child (child_of_part part.property)

/-- The places of a tree, a node after what is below it. -/
def placesPost (n : Node) : List Place :=
  (n.parts.attach.flatMap fun part => part.val.2.placesPost.map (part.val.1 :: ·)) ++ [[]]
termination_by sizeOf n
decreasing_by exact sizeOf_child (child_of_part part.property)

end Node
end River
