import River.Proofs.Node.Places

/-! The node at a position in any tree, whatever its positions are: the last one of a walk that
contains the position. Nothing below it does, since what is below a node is visited after it. -/
namespace River.Node

variable {n : Node} {p : Pos}

theorem last_hit {l : List α} {hit : α → Bool} (last : (l.filter hit).getLast? = some m) :
    ∃ before after, l = before ++ m :: after ∧ hit m = true ∧ ∀ x ∈ after, hit x = false := by
  obtain ⟨earlier, hits⟩ := List.getLast?_eq_some_iff.1 last
  obtain ⟨before, rest, rfl, -, one⟩ := List.filter_eq_append_iff.1 hits
  obtain ⟨between, after, rfl, -, holds, none⟩ := List.filter_eq_cons_iff.1 one
  refine ⟨before ++ between, after, by simp, holds, fun x member => ?_⟩
  exact Bool.eq_false_iff.2 (List.filter_eq_nil_iff.1 none x member)

theorem nodeAt?_none_iff :
    n.nodeAt? p = none ↔ ∀ place m, n.at? place = some m → m.span.contains p = false := by
  rw [nodeAt?_preorder, List.getLast?_eq_none_iff, List.filter_eq_nil_iff]
  constructor
  · intro missed place m standing
    exact Bool.eq_false_iff.2 (missed m (mem_preorder_at?.2 ⟨place, standing⟩))
  · intro missed m member
    obtain ⟨place, standing⟩ := mem_preorder_at?.1 member
    exact Bool.eq_false_iff.1 (missed place m standing)

theorem contains_unplaced (s : Span) : s.contains .unplaced = false := by
  simp [Span.contains, Pos.isPlaced]

/-- The place of the last hit in a walk, after which no node contains the position. -/
theorem place_of_nodeAt? (found : n.nodeAt? p = some m) :
    m.span.contains p = true ∧ ∃ earlier place later, n.places = earlier ++ place :: later ∧
      n.at? place = some m ∧
      ∀ q ∈ later, ∀ d, n.at? q = some d → d.span.contains p = false := by
  rw [nodeAt?_preorder] at found
  obtain ⟨before, after, split, holds, missed⟩ := last_hit found
  refine ⟨holds, ?_⟩
  have standing := places_nodes n
  rw [split, List.map_append, List.map_cons] at standing
  obtain ⟨earlier, rest, places, -, standing⟩ := List.map_eq_append_iff.1 standing
  obtain ⟨place, later, rfl, here, standing⟩ := List.map_eq_cons_iff.1 standing
  refine ⟨earlier, place, later, places, here, fun q member d stands => ?_⟩
  have listed : some d ∈ after.map some := standing ▸ stands ▸ List.mem_map_of_mem member
  obtain ⟨d', after, same⟩ := List.mem_map.1 listed
  exact Option.some.inj same ▸ missed d' after

/-- The node at a position is the last of those found there, and there is none if no node contains
the position. Nothing below the place of that node contains the position, whatever is above it. -/
theorem nodeAt?_last (n : Node) (p : Pos) :
    n.nodeAt? p = (n.find (·.span.contains p)).getLast? ∧
    (n.nodeAt? p = none ↔ ∀ place m, n.at? place = some m → m.span.contains p = false) ∧
    n.nodeAt? .unplaced = none ∧
    ∀ m, n.nodeAt? p = some m → m.span.contains p = true ∧
      ∃ earlier place later, n.places = earlier ++ place :: later ∧ n.at? place = some m ∧
        (∀ q ∈ later, ∀ d, n.at? q = some d → d.span.contains p = false) ∧
        ∀ rest d, rest ≠ [] → n.at? (place ++ rest) = some d → d.span.contains p = false := by
  refine ⟨?_, nodeAt?_none_iff, ?_, fun m found => ?_⟩
  · rw [nodeAt?_preorder, find_preorder]
  · exact nodeAt?_none_iff.2 fun _ m _ => contains_unplaced m.span
  · obtain ⟨holds, earlier, place, later, split, here, missed⟩ := place_of_nodeAt? found
    refine ⟨holds, earlier, place, later, split, here, missed, fun rest d below standing => ?_⟩
    have after : place ++ rest ∈ later :=
      later_of_below split (standing ▸ Option.isSome_some) below
    exact missed _ after d standing

/-- `x = (y)` -/
def bracketed : Stmt :=
  .attribute ⟨"x", .ofOffset 0⟩ (.paren (.ident ⟨"y", .ofOffset 5⟩) (.ofOffset 4) (.ofOffset 6))

/-- The brackets are found although they are in none of the spans above them. -/
theorem nodeAt?_bracket :
    (body [bracketed]).span.contains (.ofOffset 4) = false ∧
    (stmt bracketed).span.contains (.ofOffset 4) = false ∧
    ∃ m, (body [bracketed]).nodeAt? (.ofOffset 4) = some m ∧
      m.span.contains (.ofOffset 4) = true ∧ ∃ place, (body [bracketed]).at? place = some m ∧
        ∀ rest d, rest ≠ [] → (body [bracketed]).at? (place ++ rest) = some d →
          d.span.contains (.ofOffset 4) = false := by
  have found : (body [bracketed]).nodeAt? (.ofOffset 4) =
      some (expr (.paren (.ident ⟨"y", .ofOffset 5⟩) (.ofOffset 4) (.ofOffset 6))) := by
    rw [nodeAt?_preorder]
    rfl
  obtain ⟨holds, _, place, _, _, here, _, below⟩ :=
    (nodeAt?_last (body [bracketed]) (.ofOffset 4)).2.2.2 _ found
  exact ⟨by decide, by decide, _, found, holds, place, here, below⟩

end River.Node
