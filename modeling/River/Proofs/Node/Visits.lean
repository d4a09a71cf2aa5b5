import Mathlib.Data.List.Sigma
import River.Node.Visit
import River.Proofs.Node.Preorder

/-! The visits are those of a walk, each with the path that leads to it, and the name of each member
of an object is visited once among the children of the object. -/
namespace River
namespace Visit

variable {u v w : Visit}

theorem preorder_eq (v : Visit) : v.preorder = v :: v.next.flatMap preorder := by
  rw [preorder]
  congr 1
  simp

/-- What holds of a visit once it holds of the next visits holds of every visit. -/
@[elab_as_elim]
theorem byNext {motive : Visit → Prop} (step : ∀ v, (∀ u ∈ v.next, motive u) → motive v)
    (v : Visit) : motive v :=
  step v fun u _ => byNext step u
termination_by sizeOf v.node
decreasing_by exact sizeOf_next ‹_›

theorem mem_preorder : u ∈ v.preorder ↔ u = v ∨ ∃ w ∈ v.next, u ∈ w.preorder := by
  rw [preorder_eq, List.mem_cons, List.mem_flatMap]

theorem next_nodes (v : Visit) : v.next.map node = v.node.children := by
  rw [next, List.map_map, ← Node.limbs_children]
  conv_rhs => rw [← List.zipIdx_map_fst 0 v.node.limbs, List.map_map]
  rfl

theorem child_of_next (below : u ∈ v.next) : u.node ∈ v.node.children :=
  next_nodes v ▸ List.mem_map_of_mem below

theorem preorder_nodes (v : Visit) : v.preorder.map node = v.node.preorder := by
  induction v using byNext with
  | step v ih =>
    rw [preorder_eq, Node.preorder_children, List.map_cons, List.map_flatMap, ← next_nodes,
      List.flatMap_map]
    congr 1
    exact List.flatMap_congr ih

theorem above_of_next (below : u ∈ v.next) : u.above = v.node :: v.above := by
  obtain ⟨l, _, rfl⟩ := List.mem_map.mp below
  rfl

theorem isChildOf_of_next (below : u ∈ v.next) : u.isChildOf v = true := by
  obtain ⟨l, _, rfl⟩ := List.mem_map.mp below
  simp [isChildOf]

theorem isChildOf_iff : u.isChildOf v = true ↔ ∃ i, u.path = i :: v.path := by
  unfold isChildOf
  split
  · next none => simp [none]
  · next i path some => simp [some]

theorem path_of_next (below : u ∈ v.next) : ∃ i, u.path = i :: v.path :=
  isChildOf_iff.mp (isChildOf_of_next below)

theorem path_suffix (below : u ∈ v.preorder) : v.path <:+ u.path := by
  induction v using byNext with
  | step v ih =>
    rcases mem_preorder.mp below with rfl | ⟨w, next, below⟩
    · exact List.suffix_rfl
    · obtain ⟨i, path⟩ := path_of_next next
      exact (List.suffix_cons i v.path).trans (path ▸ ih w next below)

theorem next_paths (v : Visit) : v.next.Pairwise fun u w => u.path ≠ w.path := by
  have numbers : (v.node.limbs.zipIdx).Pairwise fun k l => k.2 ≠ l.2 :=
    List.pairwise_map.mp (List.nodup_zipIdx_map_snd v.node.limbs)
  exact List.pairwise_map.mpr (numbers.imp fun differ same => differ (List.cons.inj same).1)

/-- What is below different children is no child of the same visit. -/
theorem not_isChildOf_of_paths (left : u ∈ v.next) (right : w ∈ v.next) (differ : u.path ≠ w.path)
    (below : x ∈ u.preorder) (below' : y ∈ w.preorder) : x.isChildOf y = false := by
  rw [Bool.eq_false_iff, Ne, isChildOf_iff]
  rintro ⟨i, path⟩
  obtain ⟨j, uPath⟩ := path_of_next left
  obtain ⟨k, wPath⟩ := path_of_next right
  have first : u.path <:+ x.path := path_suffix below
  have second : w.path <:+ x.path := path ▸ (path_suffix below').trans (List.suffix_cons i _)
  have lengths : u.path.length = w.path.length := by simp [uPath, wPath]
  have suffix := List.suffix_of_suffix_length_le first second (Nat.le_of_eq lengths)
  exact differ (suffix.eq_of_length lengths)

/-- Nothing is a child of what is below it. -/
theorem not_isChildOf_below (below : u ∈ v.preorder) : v.isChildOf u = false := by
  rw [Bool.eq_false_iff, Ne, isChildOf_iff]
  rintro ⟨i, path⟩
  have longer := (path_suffix below).length_le
  rw [path, List.length_cons] at longer
  omega

/-- Among the visits below a visit its children are the next ones. -/
theorem filter_isChildOf_root (v : Visit) : v.preorder.filter (·.isChildOf v) = v.next := by
  have own : v.isChildOf v = false := not_isChildOf_below (mem_preorder.mpr (.inl rfl))
  have each : ∀ u ∈ v.next, u.preorder.filter (·.isChildOf v) = [u] := by
    intro u next
    obtain ⟨i, path⟩ := path_of_next next
    rw [preorder_eq, List.filter_cons_of_pos (by exact isChildOf_of_next next),
      List.filter_eq_nil_iff.mpr]
    intro w below
    obtain ⟨x, next', below⟩ := List.mem_flatMap.mp below
    obtain ⟨j, xPath⟩ := path_of_next next'
    rw [isChildOf_iff]
    rintro ⟨k, wPath⟩
    have longer := (path_suffix below).length_le
    simp only [xPath, path, wPath, List.length_cons] at longer
    omega
  rw [preorder_eq, List.filter_cons_of_neg (by simp [own]), List.filter_flatMap,
    List.flatMap_congr each]
  simp

theorem filter_isChildOf (below : u ∈ v.preorder) :
    v.preorder.filter (·.isChildOf u) = u.next := by
  induction v using byNext with
  | step v ih =>
    rcases mem_preorder.mp below with rfl | ⟨w, next, below'⟩
    · exact filter_isChildOf_root u
    · -- the visit is below one of the children; below the others nothing is a child of it
      obtain ⟨before, after, split⟩ := List.append_of_mem next
      have paths := next_paths v
      rw [split, List.pairwise_append, List.pairwise_cons] at paths
      have others : ∀ x ∈ v.next, x.path ≠ w.path → x.preorder.filter (·.isChildOf u) = [] :=
        fun x next' differ => List.filter_eq_nil_iff.mpr fun y belowX =>
          Bool.eq_false_iff.mp (not_isChildOf_of_paths next' next differ belowX below')
      have left : before.flatMap (fun x => x.preorder.filter (·.isChildOf u)) = [] :=
        List.flatMap_eq_nil_iff.mpr fun x member =>
          others x (split ▸ by simp [member]) (paths.2.2 x member w (by simp))
      have right : after.flatMap (fun x => x.preorder.filter (·.isChildOf u)) = [] :=
        List.flatMap_eq_nil_iff.mpr fun x member =>
          others x (split ▸ by simp [member]) (paths.2.1.1 x member).symm
      rw [preorder_eq, List.filter_cons_of_neg (by simp [not_isChildOf_below below]),
        List.filter_flatMap, split, List.flatMap_append, List.flatMap_cons, left, right,
        ih w next below', List.nil_append, List.append_nil]

theorem next_members (v : Visit) : v.next.filterMap member? = v.node.limbs.filterMap (·.1) := by
  rw [next, List.filterMap_map]
  conv_rhs => rw [← List.zipIdx_map_fst 0 v.node.limbs, List.filterMap_map]
  rfl

theorem names_of_next (below : u ∈ v.next) (named : u.member? = some f) : u.Names f := by
  obtain ⟨l, limb, rfl⟩ := List.mem_map.mp below
  replace limb := List.fst_mem_of_mem_zipIdx limb
  unfold Node.limbs at limb
  split at limb
  · next fs lcurly rcurly object =>
    obtain ⟨g, member, limb⟩ := List.mem_flatMap.mp limb
    rcases List.mem_pair.mp limb with limb | limb
    · rw [limb] at named ⊢
      cases named
      exact ⟨rfl, rfl, fs, lcurly, rcurly, v.above, by rw [object], member⟩
    · rw [limb] at named
      cases named
  · obtain ⟨c, _, limb⟩ := List.mem_map.mp limb
    rw [← limb] at named
    cases named

theorem names_of_member (below : u ∈ v.preorder) (named : u.member? = some f) :
    u = v ∨ u.Names f := by
  induction v using byNext with
  | step v ih =>
    rcases mem_preorder.mp below with same | ⟨w, next, below⟩
    · exact .inl same
    · rcases ih w next below with rfl | names
      · exact .inr (names_of_next next named)
      · exact .inr names

end Visit
end River
