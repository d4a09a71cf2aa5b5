import River.Proofs.Node.Visits
import River.Proofs.Outline.Reading
import River.Session

/-! A printer goes through a tree in its own way, with objects taken member by member and some
comments left out. What it writes are the visits of a walk all the same. -/
namespace River

namespace Visit

variable {u v : Visit}

theorem isRemark_group (group : u.node.kind = .commentGroup) (file : v.node.kind = .file)
    (below : u ∈ v.next) : u.isRemark = true := by
  have above := above_of_next below
  rcases vNode : v.node with f | _ | _ | _ | s | e <;> rw [vNode] at file above
  case file =>
    rcases uNode : u.node with _ | _ | g | _ | s | e <;> rw [uNode] at group
    case commentGroup => simp [isRemark, uNode, above]
    case stmt => cases s <;> cases group
    case expr => cases e <;> cases group
    all_goals cases group
  case stmt => cases s <;> cases file
  case expr => cases e <;> cases file
  all_goals cases file

/-- Below a visit that is shown, groups of comments alone can be left out. -/
theorem isRemark_of_next (below : u ∈ v.next) (shown : v.isRemark = false) :
    u.isRemark = decide (u.node.kind = .commentGroup) := by
  by_cases group : u.node.kind = .commentGroup
  · have file : v.node.kind = .file := by
      by_contra other
      exact Outline.kind_ne_commentGroup (child_of_next below) other group
    rw [isRemark_group group file below, decide_eq_true group]
  · rw [decide_eq_false group]
    unfold isRemark
    split
    · next g node _ => exact absurd (by simp [node, Node.kind]) group
    · next node parents =>
      rw [above_of_next below, List.cons.injEq] at parents
      simp [isRemark, parents.1, parents.2] at shown
    · rfl

/-- Comments go with their group. -/
theorem isRemark_below (below : u ∈ v.preorder) (hidden : v.isRemark = true) :
    u.isRemark = true := by
  induction v using byNext with
  | step v ih =>
    rcases mem_preorder.mp below with rfl | ⟨w, next, below⟩
    · exact hidden
    · refine ih w next below ?_
      have child := child_of_next next
      have above := above_of_next next
      unfold isRemark at hidden
      split at hidden
      · next group file =>
        rw [group] at child above
        obtain ⟨c, _, comment⟩ := List.mem_map.mp child
        rw [file] at above
        simp [isRemark, ← comment, above]
      · next comment _ =>
        rw [comment] at child
        cases child
      · cases hidden

theorem not_isRemark_of_names (names : v.Names f) : v.isRemark = false := by
  simp [isRemark, names.2.1]

/-- An outline leaves out the groups of comments of a file, with their comments. -/
def shown (comments : Bool) (v : Visit) : Bool := comments || !v.isRemark

theorem shown_of_next {comments : Bool} (below : u ∈ v.next) (visible : v.shown comments = true) :
    u.shown comments = !(decide (u.node.kind = .commentGroup) && !comments) := by
  cases comments with
  | true => simp [shown]
  | false =>
    rw [shown, isRemark_of_next below (by simpa [shown] using visible)]
    simp

theorem filter_shown_of_hidden {comments : Bool} (hidden : v.shown comments = false) :
    v.preorder.filter (shown comments) = [] := by
  refine List.filter_eq_nil_iff.mpr fun u below => ?_
  simp only [shown, Bool.or_eq_false_iff, Bool.not_eq_false'] at hidden
  simp [shown, hidden.1, isRemark_below below hidden.2]

theorem filter_shown {comments : Bool} (visible : v.shown comments = true) :
    v.preorder.filter (shown comments) =
      v :: (v.next.filter (shown comments)).flatMap fun u =>
        u.preorder.filter (shown comments) := by
  have kept : ∀ us : List Visit, us.flatMap (fun u => u.preorder.filter (shown comments)) =
      (us.filter (shown comments)).flatMap fun u => u.preorder.filter (shown comments) := by
    intro us
    induction us with
    | nil => rfl
    | cons u us ih =>
      cases visible : u.shown comments with
      | false =>
        rw [List.filter_cons_of_neg (by simp [visible]), List.flatMap_cons,
          filter_shown_of_hidden visible, List.nil_append, ih]
      | true =>
        rw [List.filter_cons_of_pos visible, List.flatMap_cons, List.flatMap_cons, ih]
  rw [preorder_eq, List.filter_cons_of_pos visible, List.filter_flatMap, kept]

theorem next_shown {comments : Bool} (visible : v.shown comments = true) :
    (v.next.filter (shown comments)).map node = Outline.shownChildren comments v.node := by
  rw [Outline.shownChildren, ← next_nodes, List.filter_map]
  congr 1
  refine List.filter_congr fun u below => ?_
  rw [shown_of_next below visible]
  rfl

end Visit

namespace Outline

open Visit (shown)

def headingEntries (v : Visit) : List Entry :=
  v.member?.elim [] fun f => [⟨v.level - 1, .field f⟩]

def visitEntries (v : Visit) : List Entry := headingEntries v ++ [nodeAt v.level v.node]

def limbEntries (comments : Bool) (depth : Nat) (l : Option Field × Node) : List Entry :=
  l.1.elim [] (fun f => [⟨depth, .field f⟩]) ++ entries comments (depth + 1) l.2

theorem level_object {u v : Visit} (below : u ∈ v.next) (object : v.node.kind = .object) :
    u.level = v.level + 2 := by
  simp only [Visit.level, Visit.above_of_next below, List.length_cons, List.countP_cons, object]
  simp
  omega

theorem level_other {u v : Visit} (below : u ∈ v.next) (other : v.node.kind ≠ .object) :
    u.level = v.level + 1 := by
  simp only [Visit.level, Visit.above_of_next below, List.length_cons, List.countP_cons]
  simp [other]
  omega

theorem flatMap_next (v : Visit) (f : Option Field × Node → List α) :
    (v.next.flatMap fun u => f (u.member?, u.node)) = v.node.limbs.flatMap f := by
  rw [Visit.next, List.flatMap_map]
  conv_rhs => rw [← List.zipIdx_map_fst 0 v.node.limbs, List.flatMap_map]

theorem next_object {comments : Bool} {v : Visit} (visible : v.shown comments = true)
    (object : v.node.kind = .object) : v.next.filter (shown comments) = v.next := by
  refine List.filter_eq_self.mpr fun u below => ?_
  have solid := kind_ne_commentGroup (Visit.child_of_next below) (by simp [object])
  simp [Visit.shown_of_next below visible, solid]

theorem headingEntries_other {u v : Visit} (below : u ∈ v.next) (other : v.node.kind ≠ .object) :
    headingEntries u = [] := by
  unfold headingEntries
  cases named : u.member? with
  | none => rfl
  | some f =>
    obtain ⟨-, -, fs, l, r, above, parent, -⟩ := Visit.names_of_next below named
    rw [Visit.above_of_next below, List.cons.injEq] at parent
    exact absurd (by rw [parent.1]; rfl) other

/-- The entries of an outline are those of the visits that it shows. -/
theorem entries_visits {comments : Bool} (v : Visit) (visible : v.shown comments = true) :
    (v.preorder.filter (shown comments)).flatMap visitEntries =
      headingEntries v ++ entries comments v.level v.node := by
  induction v using Visit.byNext with
  | step v ih =>
    have below : ∀ u ∈ v.next.filter (shown comments),
        (u.preorder.filter (shown comments)).flatMap visitEntries =
          headingEntries u ++ entries comments u.level u.node := fun u member =>
      ih u (List.mem_of_mem_filter member) (List.of_mem_filter member)
    rw [Visit.filter_shown visible, List.flatMap_cons, List.flatMap_assoc,
      List.flatMap_congr below, visitEntries, List.append_assoc]
    congr 1
    -- below an object headings stand between the children, elsewhere nothing does
    by_cases object : v.node.kind = .object
    · have members : ∀ u ∈ v.next, headingEntries u ++ entries comments u.level u.node =
          limbEntries comments (v.level + 1) (u.member?, u.node) := fun u below => by
        rw [headingEntries, level_object below object]
        rfl
      obtain ⟨fs, l, r, node⟩ := of_kind_object object
      rw [next_object visible object, List.flatMap_congr members, flatMap_next, node,
        entries_object, Node.limbs, List.flatMap_assoc]
      simp only [List.flatMap_cons, List.flatMap_nil, limbEntries, List.append_nil]
      rfl
    · have children : ∀ u ∈ v.next.filter (shown comments),
          headingEntries u ++ entries comments u.level u.node =
            entries comments (v.level + 1) u.node := fun u member => by
        have below := List.mem_of_mem_filter member
        rw [headingEntries_other below object, level_other below object, List.nil_append]
      rw [List.flatMap_congr children, entries_children _ _ object, ← Visit.next_shown visible,
        List.flatMap_map]
      rfl

def indentation (line : List Char) : Nat := (line.takeWhile (· = ' ')).length

def firstWord (line : List Char) : List Char := (line.dropWhile (· = ' ')).takeWhile (· ≠ ' ')

theorem indented_word (k : Nat) {word rest : List Char} (clean : ' ' ∉ word) (some : word ≠ [])
    (ends : EndsWord rest) :
    indentation (List.replicate k ' ' ++ (word ++ rest)) = k ∧
    firstWord (List.replicate k ' ' ++ (word ++ rest)) = word := by
  obtain ⟨c, cs, rfl⟩ := List.exists_cons_of_ne_nil some
  rw [List.mem_cons, not_or] at clean
  have first : c ≠ ' ' := Ne.symm clean.1
  have letters : ∀ d ∈ c :: cs, decide (d ≠ ' ') = true := by
    rw [List.forall_mem_cons]
    refine ⟨by simp [first], fun d member => decide_eq_true ?_⟩
    rintro rfl
    exact clean.2 member
  have stop : rest.takeWhile (· ≠ ' ') = [] := by
    rcases ends with rfl | ⟨more, rfl⟩ <;> simp
  constructor
  · rw [indentation, List.takeWhile_append_of_pos (by simp)]
    simp [first]
  · rw [firstWord, List.dropWhile_append_of_pos (by simp), List.cons_append,
      List.dropWhile_cons_of_neg (by simp [first]), ← List.cons_append,
      List.takeWhile_append_of_pos letters, stop, List.append_nil]

theorem indentation_lineBody (style : Style) (e : Entry) :
    indentation (lineBody style false e) = e.depth * style.indent := by
  rw [lineBody_eq]
  exact (indented_word _ (space_notMem_heading _) (heading_ne_nil _) (lineTail_ends _ e)).1

theorem firstWord_lineBody (style : Style) (e : Entry) :
    firstWord (lineBody style false e) = e.item.heading.toList := by
  rw [lineBody_eq, heading_label]
  exact (indented_word _ (space_notMem_heading _) (heading_ne_nil _) (lineTail_ends _ e)).2

/-- A node is indented by its depth in the tree, and once more for each object above. -/
structure NodeLine (style : Style) (v : Visit) (line : List Char) : Prop where
  indented : indentation line =
    style.indent * (v.above.length + v.above.countP (·.kind = .object))
  kind : firstWord line = v.node.kind.name.toList

/-- The line that stands before the name of a member. -/
def MemberLine (style : Style) (v : Visit) (f : Field) (line : List Char) : Prop :=
  line = List.replicate (style.indent * (v.level - 1)) ' ' ++
    ("ObjectField".toList ++ detailText (Item.field f).detail)

/-- The lines of visits one after the other; the line of a member stands right before its name. -/
inductive Listed (style : Style) : List Visit → List (List Char) → Prop
  | nil : Listed style [] []
  | node : v.member? = none → NodeLine style v line → Listed style vs lines →
      Listed style (v :: vs) (line :: lines)
  | name : v.Names f → MemberLine style v f heading → NodeLine style v line →
      Listed style vs lines → Listed style (v :: vs) (heading :: line :: lines)

/-- The lines that stand for nodes. -/
def nodeLines (lines : List (List Char)) : List (List Char) :=
  lines.filter (firstWord · ≠ "ObjectField".toList)

theorem kindName_ne (k : Kind) : k.name.toList ≠ "ObjectField".toList := by
  intro same
  have impossible : some k = none := headingOf_injective (String.toList_injective same)
  cases impossible

theorem nodeLine_lineBody (style : Style) (v : Visit) :
    NodeLine style v (lineBody style false (nodeAt v.level v.node)) :=
  ⟨by rw [indentation_lineBody, Nat.mul_comm]; rfl, firstWord_lineBody style _⟩

theorem memberLine_lineBody (style : Style) (v : Visit) (f : Field) :
    MemberLine style v f (lineBody style false ⟨v.level - 1, .field f⟩) := by
  have heading : headingOf (Item.field f).label.kind? = "ObjectField" := rfl
  simp [MemberLine, lineBody_eq, lineTail, Item.span?, Nat.mul_comm, heading]

theorem Listed.of_visits (style : Style) {vs : List Visit}
    (named : ∀ v ∈ vs, ∀ f, v.member? = some f → v.Names f) :
    Listed style vs ((vs.flatMap visitEntries).map (lineBody style false)) := by
  induction vs with
  | nil => exact .nil
  | cons v vs ih =>
    rw [List.forall_mem_cons] at named
    rw [List.flatMap_cons, List.map_append, visitEntries, headingEntries]
    cases member : v.member? with
    | none => exact .node member (nodeLine_lineBody style v) (ih named.2)
    | some f =>
      exact .name (named.1 f member) (memberLine_lineBody style v f) (nodeLine_lineBody style v)
        (ih named.2)

theorem Listed.forall_nodes {style : Style} {vs : List Visit} {lines : List (List Char)}
    (listed : Listed style vs lines) : List.Forall₂ (NodeLine style) vs (nodeLines lines) := by
  have kept {v : Visit} {line : List Char} (stands : NodeLine style v line)
      (lines : List (List Char)) : nodeLines (line :: lines) = line :: nodeLines lines := by
    refine List.filter_cons_of_pos ?_
    rw [stands.kind]
    exact decide_eq_true (kindName_ne v.node.kind)
  induction listed with
  | nil => exact .nil
  | node _ line _ ih =>
    rw [kept line]
    exact .cons line ih
  | name _ heading line _ ih =>
    rw [nodeLines, List.filter_cons_of_neg, ← nodeLines, kept line]
    · exact .cons line ih
    · rw [heading, (indented_word _ _ _ (detailText_ends _)).2]
      all_goals decide

theorem limbs_members (n : Node) : n.limbs.filterMap (·.1) = (Item.node n).members := by
  by_cases object : n.kind = .object
  · obtain ⟨fs, l, r, rfl⟩ := of_kind_object object
    rw [Node.limbs, List.filterMap_flatMap]
    simp
  · rw [Node.limbs, Item.members_other object]
    · simp
    · rintro fs l r rfl
      exact object rfl

theorem names_of_visit {n : Node} {v : Visit} {f : Field} (visited : v ∈ n.visits)
    (named : v.member? = some f) : v.Names f := by
  rcases Visit.names_of_member visited named with rfl | names
  · cases named
  · exact names

theorem members_shown (comments : Bool) {n : Node} {o : Visit} (visited : o ∈ n.visits) :
    ((n.visits.filter (shown comments)).filter (·.isChildOf o)).filterMap Visit.member? =
      (Item.node o.node).members := by
  have unnamed : ∀ v ∈ n.visits, v.shown comments = false → v.member? = none := by
    intro v visited hidden
    cases named : v.member? with
    | none => rfl
    | some f =>
      have visible := Visit.not_isRemark_of_names (names_of_visit visited named)
      simp [shown, visible] at hidden
  have children : n.visits.filter (·.isChildOf o) = o.next := Visit.filter_isChildOf visited
  rw [List.filter_comm, children, List.filterMap_filter, ← limbs_members, ← Visit.next_members]
  refine List.filterMap_congr fun v member => ?_
  rw [← children] at member
  cases visible : v.shown comments with
  | true => rfl
  | false => exact (unnamed v (List.mem_of_mem_filter member) visible).symm

/-- How the lines of an outline go with the visits that it shows. -/
structure Follows (style : Style) (visits : List Visit) (lines : List (List Char)) : Prop where
  nodes : List.Forall₂ (NodeLine style) visits (nodeLines lines)
  listed : Listed style visits lines
  members : ∀ o ∈ visits,
    (visits.filter (·.isChildOf o)).filterMap Visit.member? = (Item.node o.node).members

theorem visits_nodes (n : Node) : n.visits.map Visit.node = n.preorder :=
  Visit.preorder_nodes ⟨n, [], [], none⟩

theorem entries_of_visits (comments : Bool) (n : Node) :
    entries comments 0 n = (n.visits.filter (shown comments)).flatMap visitEntries := by
  have root : Visit.shown comments ⟨n, [], [], none⟩ = true := by
    simp only [shown, Visit.isRemark, Bool.not_false, Bool.or_true]
  exact (entries_visits ⟨n, [], [], none⟩ root).symm

theorem countP_visitEntries (vs : List Visit) :
    (vs.flatMap visitEntries).countP (·.item.isNode) = vs.length := by
  induction vs with
  | nil => rfl
  | cons v vs ih =>
    rw [List.flatMap_cons, List.countP_append, ih, visitEntries, headingEntries]
    cases v.member? <;> simp [nodeAt] <;> omega

/-- The lines of an outline are those of a walk's visits, one for each, apart from the comments that
are left out and from the lines of members. The count that is traced is that of the nodes. -/
theorem lines_of_walk (style : Style) (allowed : Bool) (n : Node) (uncolored : style.color = false)
    (unbroken : n.Unbroken) :
    let lines := Text.lines (text style allowed n).toList
    (text style allowed n).toList = lines.flatMap (· ++ ['\n']) ∧
    (∀ {m : Type u → Type v} [Monad m] [LawfulMonad m] (visit : Node → m PUnit),
      n.walk visit = (n.visits.map Visit.node).forM visit) ∧
    Follows style (n.visits.filter (shown style.comments)) lines ∧
    (Session.Step.outline n style allowed).trace? =
      some ("dump: rendered " ++ (nodeLines lines).length.repr ++ " node(s)") := by
  intro lines
  have all : lines = _ := lines_text style allowed unbroken
  have written : lines = ((n.visits.filter (shown style.comments)).flatMap visitEntries).map
      (lineBody style false) := by
    rw [all, uncolored, Bool.false_and, entries_of_visits]
  have listed : Listed style (n.visits.filter (shown style.comments)) lines := by
    rw [written]
    exact .of_visits style fun v member f named =>
      names_of_visit (List.mem_of_mem_filter member) named
  refine ⟨?_, ?_, ⟨listed.forall_nodes, listed, ?_⟩, ?_⟩
  · rw [all, toList_text]
  · intro m _ _ visit
    rw [visits_nodes, Node.walk_preorder]
  · exact fun o member => members_shown style.comments (List.mem_of_mem_filter member)
  · rw [Session.Step.trace?, nodeCount_eq, entries_of_visits, countP_visitEntries,
      listed.forall_nodes.length_eq]

/-- An object in an object, under a file with comments. -/
def nestedObjects : Node :=
  .file ⟨"f", [.attribute ⟨"a", .ofOffset 0⟩ (.object [⟨⟨"b", .ofOffset 6⟩, false,
    .object [⟨⟨"c d", .ofOffset 12⟩, true, .unary .sub (.ofOffset 20) (.ident ⟨"e", .unplaced⟩)⟩]
      (.ofOffset 10) .unplaced⟩] (.ofOffset 4) (.ofOffset 30))], [[⟨.ofOffset 40, "// g\n"⟩]]⟩

theorem lines_of_nestedObjects :
    (Style.color { comments := false, indent := 3 } = false ∧ nestedObjects.Unbroken) ∧
    Follows { comments := false, indent := 3 } (nestedObjects.visits.filter (shown false))
      (Text.lines (text { comments := false, indent := 3 } true nestedObjects).toList) := by
  have unbroken : nestedObjects.Unbroken := by decide +kernel
  exact ⟨⟨rfl, unbroken⟩, (lines_of_walk.{0, 0} _ true nestedObjects rfl unbroken).2.2.1⟩

end Outline
end River
