import River.Node.Extent

/-! Walks over a tree. A walk calls a visitor on every node; what the visitor does, and whether it
stops the walk, is up to the monad it runs in. -/
namespace River.Node

/-- Visits a node before what is below it. -/
def walk [Monad m] (visit : Node → m PUnit) (n : Node) : m PUnit := do
  visit n
  n.children.attach.forM fun c => walk visit c.val
termination_by sizeOf n
decreasing_by exact sizeOf_child c.property

/-- Visits a node after what is below it. -/
def walkPost [Monad m] (visit : Node → m PUnit) (n : Node) : m PUnit := do
  n.children.attach.forM fun c => walkPost visit c.val
  visit n
termination_by sizeOf n
decreasing_by exact sizeOf_child c.property

def note (c : Node) : StateM (List Node) PUnit := modify (· ++ [c])

/-- The nodes that a walk visits, in its order. -/
def visited (n : Node) : List Node := ((n.walk note).run []).2

/-- The nodes that a walk after the children visits, in its order. -/
def visitedPost (n : Node) : List Node := ((n.walkPost note).run []).2

/-- The nodes that satisfy `p`, in the order of a walk. -/
def find (p : Node → Bool) (n : Node) : List Node :=
  let visit (c : Node) : StateM (List Node) PUnit :=
    modify fun found => if p c then c :: found else found
  ((n.walk visit).run []).2.reverse

/-- The last node of a walk whose span contains `p`. Spans do not tell where to look: the value of
an attribute lies outside of the attribute's span. -/
def nodeAt? (p : Pos) (n : Node) : Option Node :=
  let visit (c : Node) : StateM (Option Node) PUnit :=
    modify fun found => if c.span.contains p then some c else found
  ((n.walk visit).run none).2

end River.Node
