import Mathlib.Data.List.Basic
import River.Proofs.Outline.Printing
import River.Proofs.Text.Quoted

/-! The lines of an outline. An entry is written on a line of its own, unless its detail is a text
of the source, which stands as it is: the line breaks of such a text are line breaks of the
outline. -/
namespace River

def Text.lines : List Char → List (List Char)
  | [] => []
  | c :: text =>
    if c = '\n' then [] :: lines text
    else
      match lines text with
      | [] => []
      | line :: more => (c :: line) :: more

theorem Text.lines_append {line : List Char} (unbroken : '\n' ∉ line) (text : List Char) :
    lines (line ++ '\n' :: text) = line :: lines text := by
  induction line with
  | nil => simp [lines]
  | cons c line ih =>
    rw [List.mem_cons, not_or] at unbroken
    rw [List.cons_append, lines, if_neg (Ne.symm unbroken.1), ih unbroken.2]

theorem Text.lines_flatMap {ls : List (List Char)} (unbroken : ∀ l ∈ ls, '\n' ∉ l) :
    lines (ls.flatMap (· ++ ['\n'])) = ls := by
  induction ls with
  | nil => rfl
  | cons l ls ih =>
    rw [List.forall_mem_cons] at unbroken
    rw [List.flatMap_cons, List.append_assoc, List.singleton_append, lines_append unbroken.1,
      ih unbroken.2]

namespace Outline

/-- The part of a detail that stands in it as it stands in the tree. -/
def Item.rawText : Item → String
  | .node (.expr (.ident id)) => id.name
  | .node (.expr (.literal _ _ text)) => text
  | .node (.stmt (.block name ..)) => name.text
  | .node _ => ""
  | .field f => if f.quoted then "" else f.name.name

def Item.members : Item → List Field
  | .node (.expr (.object fs _ _)) => fs
  | _ => []

@[simp] theorem Item.isNode_node (n : Node) : (Item.node n).isNode = true := rfl
@[simp] theorem Item.isNode_field (f : Field) : (Item.field f).isNode = false := rfl
@[simp] theorem Item.members_field (f : Field) : (Item.field f).members = [] := rfl
@[simp] theorem Item.members_object (fs : List Field) (l r : Pos) :
    (Item.node (.expr (.object fs l r))).members = fs := rfl

theorem Item.members_other {n : Node} (other : n.kind ≠ .object) : (Item.node n).members = [] := by
  rcases n with f | ss | g | c | s | e
  case expr =>
    cases e
    case object => exact absurd rfl other
    all_goals rfl
  all_goals rfl

/-- A line without the break that ends it. -/
def lineBody (style : Style) (painted : Bool) (e : Entry) : List Char :=
  List.replicate (e.depth * style.indent) ' '
    ++ (Paint.heading.apply painted e.item.heading.toList
    ++ (detailText e.item.detail
    ++ if style.positions then e.item.span?.elim [] (spanText painted) else []))

theorem lineText_eq (style : Style) (painted : Bool) (e : Entry) :
    lineText style painted e = lineBody style painted e ++ ['\n'] := by
  simp only [lineText, lineBody, List.append_assoc]

theorem visible_heading (i : Item) : Text.Visible i.heading.toList := by
  cases i with
  | field f =>
    have : Text.Visible "ObjectField".toList := by decide
    exact this
  | node n => cases kind : n.kind <;> simp only [Item.heading, kind, Kind.name] <;> decide

theorem visible_symbol (t : Token) : Text.Visible t.symbol.toList := by
  cases t <;> decide

theorem visible_pos (p : Pos) : Text.Visible p.text.toList := by
  cases p with
  | unplaced => decide
  | byte n h =>
    rw [Pos.text, Nat.repr_eq_ofList_toDigits, String.toList_ofList]
    exact Text.visible_toDigits n

theorem visible_span (s : Span) : Text.Visible s.text.toList := by
  unfold Span.text
  split
  · decide
  · rw [String.toList_append, String.toList_append]
    exact ((visible_pos s.first).append (by decide)).append (visible_pos s.last)

theorem newline_notMem_paint (p : Paint) (painted : Bool) {text : List Char}
    (visible : Text.Visible text) : '\n' ∉ p.apply painted text := by
  have unbroken : '\n' ∉ text := visible.notMem (by decide)
  cases painted with
  | false => exact unbroken
  | true => cases p <;> simp [Paint.apply, Paint.code, Paint.stop, unbroken]

theorem count_detail (control : c.toNat < 0x20) (i : Item) :
    i.detail.toList.count c = i.rawText.toList.count c := by
  have quoted (s : String) : (Text.quoted s).toList.count c = 0 :=
    List.count_eq_zero.mpr ((Text.visible_quoted s).notMem control)
  have symbol (t : Token) : t.symbol.toList.count c = 0 :=
    List.count_eq_zero.mpr ((visible_symbol t).notMem control)
  have apart : ' ' ≠ c := by
    rintro rfl
    exact absurd control (by decide)
  rcases i with (f | ss | g | c' | s | e) | f
  · exact quoted f.name
  · rfl
  · rfl
  · exact quoted c'.text
  · rcases s with ⟨name, value⟩ | ⟨name, namePos, _ | label, body, l, r⟩
    · rfl
    · rfl
    · simp [Item.detail, nodeDetail, Item.rawText, quoted, apart]
  · cases e <;> simp [Item.detail, nodeDetail, Item.rawText, symbol, apart]
  · cases written : f.quoted <;> simp [Item.detail, Item.rawText, written, quoted]

theorem count_lineBody (style : Style) (painted : Bool) (e : Entry) :
    (lineBody style painted e).count '\n' = e.item.rawText.toList.count '\n' := by
  have spaces : (List.replicate (e.depth * style.indent) ' ').count '\n' = 0 := by
    simp [List.count_replicate]
  have heading : (Paint.heading.apply painted e.item.heading.toList).count '\n' = 0 :=
    List.count_eq_zero.mpr (newline_notMem_paint _ _ (visible_heading e.item))
  have span (s : Span) : (spanText painted s).count '\n' = 0 := by
    have bracketed : Text.Visible ('[' :: (s.text.toList ++ [']'])) :=
      List.forall_mem_cons.mpr ⟨by decide, (visible_span s).append (by decide)⟩
    refine List.count_eq_zero.mpr ?_
    simp [spanText, newline_notMem_paint _ _ bracketed]
  have detail : (detailText e.item.detail).count '\n' = e.item.rawText.toList.count '\n' := by
    rw [← count_detail (by decide), detailText]
    split
    · next empty => simp [String.isEmpty_iff.mp empty]
    · simp
  have spans : (if style.positions then e.item.span?.elim [] (spanText painted) else []).count '\n'
      = 0 := by
    cases style.positions <;> cases e.item.span? <;> simp [span]
  simp only [lineBody, List.count_append, spaces, heading, detail, spans]
  omega

/-- An outline has a line for each entry, and one more for each line break in what stands raw. -/
theorem count_lines (style : Style) (painted : Bool) (es : List Entry) :
    (es.flatMap (lineText style painted)).count '\n' =
      es.length + (es.flatMap (·.item.rawText.toList)).count '\n' := by
  induction es with
  | nil => rfl
  | cons e es ih =>
    simp only [List.flatMap_cons, List.count_append, lineText_eq, count_lineBody, ih,
      List.length_cons]
    simp
    omega

end Outline

/-- The texts that an outline does not quote. -/
def Node.rawTexts : Node → List String
  | .expr (.ident id) => [id.name]
  | .expr (.literal _ _ text) => [text]
  | .stmt (.block name ..) => name.parts
  | _ => []

/-- No name, literal or part of a block's name goes over a line. -/
def Node.Unbroken (n : Node) : Prop := ∀ m ∈ n.preorder, ∀ t ∈ m.rawTexts, '\n' ∉ t.toList

instance (n : Node) : Decidable n.Unbroken :=
  inferInstanceAs (Decidable (∀ m ∈ n.preorder, ∀ t ∈ m.rawTexts, '\n' ∉ t.toList))

theorem Node.Unbroken.child {c n : Node} (whole : n.Unbroken) (below : c ∈ n.children) :
    c.Unbroken :=
  fun m member => whole m (mem_preorder.mpr (.inr ⟨c, below, member⟩))

theorem newline_notMem_blockName (name : BlockName) (unbroken : ∀ t ∈ name.parts, '\n' ∉ t.toList) :
    '\n' ∉ name.text.toList := by
  have joined : ∀ parts : List String, (∀ t ∈ parts, '\n' ∉ t.toList) →
      '\n' ∉ ['.'].intercalate (parts.map String.toList) := by
    intro parts
    induction parts with
    | nil => intro _; simp
    | cons t parts ih =>
      intro unbroken
      rw [List.forall_mem_cons] at unbroken
      cases parts with
      | nil => simpa using unbroken.1
      | cons u parts =>
        rw [List.map_cons, List.map_cons, List.intercalate_cons_cons]
        simpa using ⟨unbroken.1, by simpa using ih unbroken.2⟩
  rw [BlockName.text, String.toList_intercalate]
  exact joined _ unbroken

namespace Outline

theorem newline_notMem_rawText {n : Node} (unbroken : ∀ t ∈ n.rawTexts, '\n' ∉ t.toList) :
    '\n' ∉ (Item.node n).rawText.toList := by
  rcases n with f | ss | g | c | s | e
  case stmt =>
    rcases s with ⟨name, value⟩ | ⟨name, namePos, label, body, l, r⟩
    · simp [Item.rawText]
    · exact newline_notMem_blockName name unbroken
  case expr =>
    cases e
    case ident id => exact unbroken id.name (by simp [Node.rawTexts])
    case literal kind pos text => exact unbroken text (by simp [Node.rawTexts])
    all_goals simp [Item.rawText]
  all_goals simp [Item.rawText]

theorem newline_notMem_member {f : Field} (unbroken : (Node.ident f.name).Unbroken) :
    '\n' ∉ (Item.field f).rawText.toList := by
  have name : '\n' ∉ f.name.name.toList :=
    unbroken _ (Node.mem_preorder.mpr (.inl rfl)) f.name.name (by simp [Node.rawTexts])
  have raw : (Item.field f).rawText = if f.quoted then "" else f.name.name := rfl
  rw [raw]
  split
  · simp
  · exact name

theorem entries_unbroken (comments : Bool) (depth : Nat) {n : Node} (unbroken : n.Unbroken) :
    ∀ e ∈ entries comments depth n, '\n' ∉ e.item.rawText.toList := by
  induction n using Node.byChildren generalizing depth with
  | step n ih =>
    have own : '\n' ∉ (nodeAt depth n).item.rawText.toList :=
      newline_notMem_rawText (unbroken n (Node.mem_preorder.mpr (.inl rfl)))
    by_cases object : n.kind = .object
    · obtain ⟨fs, l, r, rfl⟩ := of_kind_object object
      rw [entries_object, List.forall_mem_cons]
      refine ⟨own, fun e member => ?_⟩
      obtain ⟨f, member, listed⟩ := List.mem_flatMap.mp member
      have name := name_child member l r
      have value := value_child member l r
      rcases List.mem_cons.mp listed with rfl | listed
      · exact newline_notMem_member (unbroken.child name)
      · rcases List.mem_append.mp listed with listed | listed
        · exact ih _ name _ (unbroken.child name) e listed
        · exact ih _ value _ (unbroken.child value) e listed
    · rw [entries_children _ _ object, List.forall_mem_cons]
      refine ⟨own, fun e member => ?_⟩
      obtain ⟨c, shown, listed⟩ := List.mem_flatMap.mp member
      have below := List.mem_of_mem_filter shown
      exact ih c below _ (unbroken.child below) e listed

theorem toList_text (style : Style) (colorAllowed : Bool) (n : Node) :
    (text style colorAllowed n).toList =
      ((entries style.comments 0 n).map (lineBody style (style.color && colorAllowed))).flatMap
        (· ++ ['\n']) := by
  have ended : lineText style (style.color && colorAllowed) =
      fun e => lineBody style (style.color && colorAllowed) e ++ ['\n'] :=
    funext (lineText_eq style _)
  rw [text_eq, String.toList_ofList, ended, List.flatMap_map]

/-- Where no text breaks a line, each line is an entry. -/
theorem lines_text (style : Style) (colorAllowed : Bool) {n : Node} (unbroken : n.Unbroken) :
    Text.lines (text style colorAllowed n).toList =
      (entries style.comments 0 n).map (lineBody style (style.color && colorAllowed)) := by
  rw [toList_text, Text.lines_flatMap]
  intro line member
  obtain ⟨e, listed, rfl⟩ := List.mem_map.mp member
  have raw := entries_unbroken style.comments 0 unbroken e listed
  exact List.count_eq_zero.mp ((count_lineBody _ _ e).trans (List.count_eq_zero.mpr raw))

/-- There are as many headings as the objects have members. -/
def Balanced (es : List Entry) : Prop :=
  es.countP (!·.item.isNode) = (es.flatMap (·.item.members)).length

theorem Balanced.append (first : Balanced es) (second : Balanced ds) : Balanced (es ++ ds) := by
  simp only [Balanced, List.countP_append, List.flatMap_append, List.length_append] at *
  omega

theorem Balanced.flatMap {xs : List α} {f : α → List Entry} (each : ∀ x ∈ xs, Balanced (f x)) :
    Balanced (xs.flatMap f) := by
  induction xs with
  | nil => rfl
  | cons x xs ih =>
    rw [List.forall_mem_cons] at each
    exact each.1.append (ih each.2)

theorem Balanced.object {fs : List Field} {below : Field → List Entry} (depth : Nat) (l r : Pos)
    (each : ∀ f ∈ fs, Balanced (below f)) :
    Balanced (nodeAt depth (.expr (.object fs l r)) ::
      fs.flatMap fun f => ⟨depth + 1, .field f⟩ :: below f) := by
  have headings : ∀ gs : List Field, (∀ g ∈ gs, Balanced (below g)) →
      (gs.flatMap fun f => (⟨depth + 1, .field f⟩ : Entry) :: below f).countP (!·.item.isNode) =
        gs.length + ((gs.flatMap fun f => (⟨depth + 1, .field f⟩ : Entry) :: below f).flatMap
          (·.item.members)).length := by
    intro gs
    induction gs with
    | nil => intro _; rfl
    | cons g gs ih =>
      intro each
      rw [List.forall_mem_cons] at each
      have first : (below g).countP (!·.item.isNode) = _ := each.1
      have rest := ih each.2
      simp only [List.flatMap_cons, List.countP_append, List.flatMap_append, List.length_append,
        List.cons_append, List.countP_cons, List.length_cons, first, rest, Item.isNode_field,
        Item.members_field, List.length_nil, Bool.not_false, if_true]
      omega
  have all := headings fs each
  simp only [Balanced, List.countP_cons, List.flatMap_cons, List.length_append, all, nodeAt,
    Item.isNode_node, Item.members_object, Bool.not_true, if_neg, Bool.false_eq_true,
    not_false_eq_true, Nat.add_zero]

theorem balanced_entries (comments : Bool) (depth : Nat) (n : Node) :
    Balanced (entries comments depth n) := by
  induction n using Node.byChildren generalizing depth with
  | step n ih =>
    by_cases object : n.kind = .object
    · obtain ⟨fs, l, r, rfl⟩ := of_kind_object object
      rw [entries_object]
      refine Balanced.object depth l r fun f member => ?_
      exact (ih (.ident f.name) (name_child member l r) _).append
        (ih (.expr f.value) (value_child member l r) _)
    · have own : Balanced [nodeAt depth n] := by
        simp [Balanced, nodeAt, Item.members_other object]
      rw [entries_children _ _ object]
      exact own.append (.flatMap fun c shown => ih c (List.mem_of_mem_filter shown) _)

theorem entries_ne_nil (comments : Bool) (depth : Nat) (n : Node) :
    entries comments depth n ≠ [] := by
  by_cases object : n.kind = .object
  · obtain ⟨fs, l, r, rfl⟩ := of_kind_object object
    simp [entries_object]
  · simp [entries_children _ _ object]

theorem getLast?_lines (style : Style) (painted : Bool) (some : es ≠ []) :
    (es.flatMap (lineText style painted)).getLast? = Option.some '\n' := by
  rw [← List.dropLast_append_getLast some, List.flatMap_append, List.getLast?_append]
  simp [lineText_eq]

/-- An outline ends with a line break. It has one for each node and for each member of the objects
that it shows, and besides these only the ones in names, literals and names of blocks. -/
theorem newlines_exact (style : Style) (colorAllowed : Bool) (n : Node) :
    (text style colorAllowed n).toList.getLast? = some '\n' ∧
    (text style colorAllowed n).toList.count '\n' =
      nodeCount style colorAllowed n +
        ((entries style.comments 0 n).flatMap (·.item.members)).length +
        ((entries style.comments 0 n).flatMap (·.item.rawText.toList)).count '\n' := by
  rw [text_eq, String.toList_ofList]
  constructor
  · exact getLast?_lines style _ (entries_ne_nil style.comments 0 n)
  · have balanced : (entries style.comments 0 n).countP (!·.item.isNode) = _ :=
      balanced_entries style.comments 0 n
    rw [count_lines, nodeCount_eq, ← balanced, List.length_eq_countP_add_countP (·.item.isNode)]
    simp

/-- A string literal whose source text goes over two lines. -/
def brokenLiteral : Node := .expr (.literal .string (.ofOffset 0) "`a\nb`")

theorem brokenLiteral_two_lines :
    ¬((text {} true brokenLiteral).toList.count '\n' = nodeCount {} true brokenLiteral +
      ((entries true 0 brokenLiteral).flatMap (·.item.members)).length) := by
  rw [text_eq, nodeCount_eq, String.toList_ofList]
  decide +kernel

end Outline
end River
