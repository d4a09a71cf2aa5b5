import River.Node.Unplaced
import River.Proofs.Outline.Printing

/-! What an outline does not show has no part in it. Without positions an outline is that of the
tree without its positions; without comments it is that of the file without its comments. -/
namespace River

theorem Expr.unplacedAll_eq (es : List Expr) : unplacedAll es = es.map unplaced := by
  induction es with
  | nil => rfl
  | cons e es ih => rw [unplacedAll, ih, List.map_cons]

theorem Expr.unplacedFields_eq (fs : List Field) : unplacedFields fs = fs.map Field.unplaced := by
  induction fs with
  | nil => rfl
  | cons f fs ih => rw [unplacedFields, ih, List.map_cons]

theorem Stmt.unplacedAll_eq (ss : List Stmt) : unplacedAll ss = ss.map unplaced := by
  induction ss with
  | nil => rfl
  | cons s ss ih => rw [unplacedAll, ih, List.map_cons]

namespace Node

theorem kind_unplaced (n : Node) : n.unplaced.kind = n.kind := by
  rcases n with f | ss | g | c | s | e
  case stmt => cases s <;> rfl
  case expr => cases e <;> rfl
  all_goals rfl

theorem object_unplaced (fs : List Field) (l r : Pos) :
    (expr (.object fs l r)).unplaced =
      expr (.object (fs.map Field.unplaced) .unplaced .unplaced) := by
  rw [unplaced, Expr.unplaced, Expr.unplacedFields_eq]

theorem children_unplaced (n : Node) : n.unplaced.children = n.children.map unplaced := by
  have values (es : List Expr) : (Expr.unplacedAll es).map expr = (es.map expr).map unplaced := by
    simp [Expr.unplacedAll_eq, unplaced]
  rcases n with f | ss | g | c | s | e
  · simp [unplaced, children]
  · simp [unplaced, children, Stmt.unplacedAll_eq]
  · simp [unplaced, children]
  · rfl
  · cases s <;> rfl
  · cases e with
    | array es => exact values es
    | call callee args => exact congrArg (expr callee.unplaced :: ·) (values args)
    | object fs =>
      rw [object_unplaced, children, children, List.flatMap_map, List.map_flatMap]
      simp only [Field.unplaced_eq]
      rfl
    | _ => rfl

end Node

namespace Outline

def Item.unplaced : Item → Item
  | .node n => .node n.unplaced
  | .field f => .field f.unplaced

def Entry.unplaced (e : Entry) : Entry := { e with item := e.item.unplaced }

theorem heading_unplaced (i : Item) : i.unplaced.heading = i.heading := by
  cases i with
  | node n => exact congrArg Kind.name n.kind_unplaced
  | field f => rfl

theorem detail_unplaced (i : Item) : i.unplaced.detail = i.detail := by
  rcases i with (f | ss | g | c | s | e) | f
  case node.stmt =>
    rcases s with ⟨name, value⟩ | ⟨name, namePos, _ | label, body, l, r⟩ <;> rfl
  case node.expr => cases e <;> rfl
  case field => rw [Item.unplaced, Field.unplaced_eq]; rfl
  all_goals rfl

theorem shownChildren_unplaced (comments : Bool) (n : Node) :
    shownChildren comments n.unplaced = (shownChildren comments n).map Node.unplaced := by
  rw [shownChildren, n.children_unplaced, List.filter_map]
  simp only [Function.comp_def, Node.kind_unplaced]
  rfl

/-- The outline of a tree without its positions has the same entries, without positions. -/
theorem entries_unplaced (comments : Bool) (depth : Nat) (n : Node) :
    entries comments depth n.unplaced = (entries comments depth n).map Entry.unplaced := by
  induction n using Node.byChildren generalizing depth with
  | step n ih =>
    by_cases object : n.kind = .object
    · obtain ⟨fs, l, r, rfl⟩ := of_kind_object object
      have member (f : Field) (listed : f ∈ fs) :
          memberEntries comments (depth + 1) f.unplaced =
            (memberEntries comments (depth + 1) f).map Entry.unplaced := by
        have name := ih (.ident f.name) (name_child listed l r) (depth + 2)
        have value := ih (.expr f.value) (value_child listed l r) (depth + 2)
        rw [memberEntries, memberEntries, List.map_cons, List.map_append, ← name, ← value,
          Entry.unplaced, Item.unplaced, Field.unplaced_eq]
        rfl
      rw [Node.object_unplaced, entries_object, entries_object, List.map_cons, List.flatMap_map,
        List.map_flatMap, List.flatMap_congr member, ← Node.object_unplaced fs l r]
      rfl
    · have object' : n.unplaced.kind ≠ .object := fun same => object (n.kind_unplaced ▸ same)
      have below : ∀ c ∈ shownChildren comments n, entries comments (depth + 1) c.unplaced =
          (entries comments (depth + 1) c).map Entry.unplaced :=
        fun c shown => ih c (List.mem_of_mem_filter shown) (depth + 1)
      rw [entries_children _ _ object', entries_children _ _ object, shownChildren_unplaced,
        List.map_cons, List.flatMap_map, List.map_flatMap, List.flatMap_congr below]
      rfl

variable {style : Style}

theorem lineText_unplaced (hidden : style.positions = false) (painted : Bool) (e : Entry) :
    lineText style painted e.unplaced = lineText style painted e := by
  simp only [lineText, Entry.unplaced, heading_unplaced, detail_unplaced, hidden,
    Bool.false_eq_true, if_false]

theorem text_unplaced (hidden : style.positions = false) (colorAllowed : Bool) (n : Node) :
    text style colorAllowed n.unplaced = text style colorAllowed n := by
  rw [text_eq, text_eq, entries_unplaced, List.flatMap_map]
  simp only [lineText_unplaced hidden]

theorem entries_file (comments : Bool) (depth : Nat) (f : File) :
    entries comments depth (.file f) = nodeAt depth (.file f) ::
      (entries comments (depth + 1) (.body f.body) ++
        if comments then f.comments.flatMap (group (depth + 1)) else []) := rfl

/-- Only files have comments to leave out. -/
theorem entries_comments {n : Node} (other : n.kind ≠ .file) (comments comments' : Bool)
    (depth : Nat) : entries comments depth n = entries comments' depth n := by
  cases n with
  | file f => exact absurd rfl other
  | _ => rfl

/-- The line of a file itself shows none of its comments. -/
theorem lineText_uncommented (painted : Bool) (f : File) (depth : Nat) :
    lineText style painted (nodeAt depth (.file { f with comments := [] })) =
      lineText style painted (nodeAt depth (.file f)) := rfl

/-- Whether comments are shown decides over the entries, and over nothing in their lines. -/
theorem text_comments (style : Style) (comments colorAllowed : Bool) (n : Node) :
    text { style with comments } colorAllowed n = String.ofList
      ((entries comments 0 n).flatMap (lineText style (style.color && colorAllowed))) :=
  text_eq _ _ _

theorem text_uncommented (style : Style) (colorAllowed : Bool) (f : File) :
    text { style with comments := false } colorAllowed (.file f) =
      text { style with comments := true } colorAllowed (.file { f with comments := [] }) := by
  have body : entries false 1 (.body f.body) = entries true 1 (.body f.body) :=
    entries_comments (by simp [Node.kind]) false true 1
  simp only [text_comments, entries_file, List.flatMap_cons, lineText_uncommented, body,
    Bool.false_eq_true, if_false, if_true, List.flatMap_nil]

/-- What an outline hides does not change it. Without positions, trees that differ in nothing else
look alike. Without comments, a file looks like one that has none, so files that differ in nothing
else look alike, and the outline of what is no file stays as it is. -/
theorem text_hides (style : Style) (colorAllowed : Bool) :
    (∀ m n : Node, m.unplaced = n.unplaced →
      text { style with positions := false } colorAllowed m =
        text { style with positions := false } colorAllowed n) ∧
    (∀ f : File, text { style with comments := false } colorAllowed (.file f) =
      text { style with comments := true } colorAllowed (.file { f with comments := [] })) ∧
    (∀ f g : File, f.name = g.name → f.body = g.body →
      text { style with comments := false } colorAllowed (.file f) =
        text { style with comments := false } colorAllowed (.file g)) ∧
    ∀ n : Node, n.kind ≠ .file → text { style with comments := true } colorAllowed n =
      text { style with comments := false } colorAllowed n := by
  refine ⟨fun m n same => ?_, text_uncommented style colorAllowed, fun f g name body => ?_,
    fun n other => ?_⟩
  · rw [← text_unplaced rfl colorAllowed m, same, text_unplaced rfl]
  · rw [text_uncommented, text_uncommented, name, body]
  · rw [text_comments, text_comments, entries_comments other true false]

/-- `x = 1` from an offset on, with a comment after it. -/
def settingAt (offset : Nat) (remark : String) : File where
  name := "f"
  body := [.attribute ⟨"x", .ofOffset offset⟩ (.literal .number (.ofOffset (offset + 4)) "1")]
  comments := [[⟨.ofOffset (offset + 6), remark⟩]]

theorem text_hides_remark :
    (Node.file (settingAt 0 "// a")).unplaced = (Node.file (settingAt 7 "// a")).unplaced ∧
    text { positions := false } true (.file (settingAt 0 "// a")) =
      text { positions := false } true (.file (settingAt 7 "// a")) ∧
    (settingAt 0 "// a").name = (settingAt 0 "// b").name ∧
    (settingAt 0 "// a").body = (settingAt 0 "// b").body ∧
    text { comments := false } true (.file (settingAt 0 "// a")) =
      text { comments := false } true (.file (settingAt 0 "// b")) ∧
    (Node.commentGroup []).kind ≠ .file ∧
    text { comments := true } true (.commentGroup []) =
      text { comments := false } true (.commentGroup []) := by
  obtain ⟨positions, -, comments, other⟩ := text_hides {} true
  exact ⟨rfl, positions _ _ rfl, rfl, rfl, comments _ _ rfl rfl, by decide, other _ (by decide)⟩

end Outline
end River
