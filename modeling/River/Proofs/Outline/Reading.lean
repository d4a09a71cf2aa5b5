import Mathlib.Data.List.Nodup
import River.Outline.Sketch
import River.Proofs.Outline.Lines

/-! An outline can be read back as a sketch of its tree: the spaces before a heading tell the depth,
the heading ends at the next space, and the last bracket opens the span. -/
namespace River.Outline

/-- A text is cut in one way at the first sign of a kind. -/
theorem cut_first {sign : α} {w w' r r' : List α} (same : w ++ sign :: r = w' ++ sign :: r')
    (clean : sign ∉ w) (clean' : sign ∉ w') : w = w' ∧ r = r' := by
  induction w generalizing w' with
  | nil =>
    cases w' with
    | nil => exact ⟨rfl, (List.cons.inj same).2⟩
    | cons c w' => exact absurd (List.mem_cons.mpr (.inl (List.cons.inj same).1)) clean'
  | cons c w ih =>
    cases w' with
    | nil => exact absurd (List.mem_cons.mpr (.inl (List.cons.inj same).1.symm)) clean
    | cons d w' =>
      rw [List.mem_cons, not_or] at clean clean'
      rw [List.cons_append, List.cons_append, List.cons.injEq] at same
      obtain ⟨rfl, rest⟩ := same
      obtain ⟨rfl, rfl⟩ := ih rest clean.2 clean'.2
      exact ⟨rfl, rfl⟩

/-- It is cut in one way at the last sign of a kind. -/
theorem cut_last {sign : α} {w w' r r' : List α} (same : w ++ sign :: r = w' ++ sign :: r')
    (clean : sign ∉ r) (clean' : sign ∉ r') : w = w' ∧ r = r' := by
  have mirrored : r.reverse ++ sign :: w.reverse = r'.reverse ++ sign :: w'.reverse := by
    simpa using congrArg List.reverse same
  obtain ⟨rest, word⟩ := cut_first mirrored (by simpa using clean) (by simpa using clean')
  exact ⟨List.reverse_injective word, List.reverse_injective rest⟩

/-- What may follow a word: nothing, or a space and something. -/
def EndsWord (rest : List Char) : Prop := rest = [] ∨ ∃ more, rest = ' ' :: more

theorem cut_word {w w' r r' : List Char} (same : w ++ r = w' ++ r') (clean : ' ' ∉ w)
    (clean' : ' ' ∉ w') (ends : EndsWord r) (ends' : EndsWord r') : w = w' ∧ r = r' := by
  have padded : ∀ {t : List Char}, EndsWord t → ∃ more, t ++ [' '] = ' ' :: more := by
    rintro t (rfl | ⟨more, rfl⟩)
    · exact ⟨[], rfl⟩
    · exact ⟨more ++ [' '], rfl⟩
  obtain ⟨more, pad⟩ := padded ends
  obtain ⟨more', pad'⟩ := padded ends'
  have longer : w ++ ' ' :: more = w' ++ ' ' :: more' := by
    rw [← pad, ← pad', ← List.append_assoc, ← List.append_assoc, same]
  obtain ⟨rfl, -⟩ := cut_first longer clean clean'
  exact ⟨rfl, List.append_cancel_left same⟩

theorem cut_indent {k k' : Nat} {w w' : List Char} (solid : w.head? ≠ some ' ')
    (solid' : w'.head? ≠ some ' ')
    (same : List.replicate k ' ' ++ w = List.replicate k' ' ' ++ w') : k = k' ∧ w = w' := by
  induction k generalizing k' with
  | zero =>
    cases k' with
    | zero => exact ⟨rfl, same⟩
    | succ k' =>
      rw [List.replicate_succ] at same
      subst same
      exact absurd rfl solid
  | succ k ih =>
    cases k' with
    | zero =>
      rw [List.replicate_succ] at same
      subst same
      exact absurd rfl solid'
    | succ k' =>
      simp only [List.replicate_succ, List.cons_append, List.cons.injEq, true_and] at same
      obtain ⟨rfl, rfl⟩ := ih same
      exact ⟨rfl, rfl⟩

theorem posText_byte (n : Nat) (h : n ≤ Pos.last) :
    (Pos.byte n h).text.toList = Nat.toDigits 10 n := by
  rw [Pos.text, Nat.repr_eq_ofList_toDigits, String.toList_ofList]

theorem dash_notMem_byte (n : Nat) (h : n ≤ Pos.last) : '-' ∉ (Pos.byte n h).text.toList := by
  rw [posText_byte]
  intro member
  exact absurd (Nat.isDigit_of_mem_toDigits (by decide) (by decide) member) (by decide)

theorem posText_injective {p q : Pos} (same : p.text.toList = q.text.toList) : p = q := by
  have digits (n : Nat) (h : n ≤ Pos.last) : (Pos.byte n h).text.toList ≠ ['-'] := by
    intro dash
    exact dash_notMem_byte n h (by simp [dash])
  cases p with
  | unplaced =>
    cases q with
    | unplaced => rfl
    | byte n h => exact absurd same.symm (digits n h)
  | byte m h =>
    cases q with
    | unplaced => exact absurd same (digits m h)
    | byte n h' =>
      rw [posText_byte, posText_byte] at same
      have value := congrArg (Nat.ofDigitChars 10 · 0) same
      simp only [Nat.ofDigitChars_ten_toDigits] at value
      subst value
      rfl

theorem posText_ne_nil (p : Pos) : p.text.toList ≠ [] := by
  cases p with
  | unplaced => simp [Pos.text]
  | byte n h =>
    rw [posText_byte]
    exact Nat.toDigits_ne_nil

/-- The first end of a span is told apart from the last one, though a missing end is a dash too. -/
theorem cut_posText {p q : Pos} {r r' : List Char}
    (same : p.text.toList ++ '-' :: r = q.text.toList ++ '-' :: r') : p = q ∧ r = r' := by
  have apart (n : Nat) (h : n ≤ Pos.last) (t t' : List Char) :
      Pos.unplaced.text.toList ++ '-' :: t ≠ (Pos.byte n h).text.toList ++ '-' :: t' := by
    intro same
    obtain ⟨c, cs, digits⟩ := List.exists_cons_of_ne_nil (posText_ne_nil (.byte n h))
    obtain rfl : '-' = c := (List.cons.inj (digits ▸ same)).1
    exact dash_notMem_byte n h (by simp [digits])
  cases p with
  | unplaced =>
    cases q with
    | unplaced => exact ⟨rfl, (List.cons.inj (List.append_cancel_left same)).2⟩
    | byte n h => exact absurd same (apart n h r r')
  | byte m h =>
    cases q with
    | unplaced => exact absurd same.symm (apart m h r' r)
    | byte n h' =>
      obtain ⟨first, rest⟩ := cut_first same (dash_notMem_byte m h) (dash_notMem_byte n h')
      exact ⟨posText_injective first, rest⟩

/-- A span without ends is a dash; any other has its ends on both sides of one. -/
theorem spanText_cases (s : Span) :
    s = .nowhere ∧ s.text.toList = ['-'] ∨
    s.text.toList = s.first.text.toList ++ '-' :: s.last.text.toList := by
  rcases s with ⟨_ | ⟨m, h⟩, _ | ⟨n, h'⟩⟩
  · exact .inl ⟨rfl, rfl⟩
  all_goals
    right
    simp [Span.text, Pos.isPlaced]

theorem spanText_injective {s t : Span} (same : s.text.toList = t.text.toList) : s = t := by
  have long (u : Span) : u.first.text.toList ++ '-' :: u.last.text.toList ≠ ['-'] := by
    intro short
    have first := List.length_pos_iff.mpr (posText_ne_nil u.first)
    have length := congrArg List.length short
    simp at length
    omega
  rcases spanText_cases s with ⟨rfl, dash⟩ | ends <;>
    rcases spanText_cases t with ⟨rfl, dash'⟩ | ends'
  · rfl
  · exact absurd (ends'.symm.trans (same.symm.trans dash)) (long t)
  · exact absurd (ends.symm.trans (same.trans dash')) (long s)
  · obtain ⟨first, rest⟩ := cut_posText (ends.symm.trans (same.trans ends'))
    have last := posText_injective rest
    cases s
    cases t
    simp_all

theorem bracket_notMem_span (s : Span) : '[' ∉ s.text.toList := by
  have pos (p : Pos) : '[' ∉ p.text.toList := by
    cases p with
    | unplaced => simp [Pos.text]
    | byte n h =>
      rw [posText_byte]
      intro member
      exact absurd (Nat.isDigit_of_mem_toDigits (by decide) (by decide) member) (by decide)
  rcases spanText_cases s with ⟨-, dash⟩ | ends
  · simp [dash]
  · simp [ends, pos]

namespace Label

def kind? : Label → Option Kind
  | file _ => some .file
  | body => some .body
  | commentGroup => some .commentGroup
  | comment _ => some .comment
  | .attribute => some .attribute
  | block _ => some .block
  | ident _ => some .ident
  | literal .. => some .literal
  | array => some .array
  | object => some .object
  | access => some .access
  | index => some .index
  | call => some .call
  | unary _ => some .unary
  | binary _ => some .binary
  | paren => some .paren
  | member _ => none

def detail : Label → String
  | file name => Text.quoted name
  | comment text => Text.quoted text
  | block title => title
  | ident name => name
  | literal kind text => kind.symbol ++ " " ++ text
  | unary op => op.symbol
  | binary op => op.symbol
  | member title => title
  | _ => ""

end Label

def headingOf : Option Kind → String
  | none => "ObjectField"
  | some k => k.name

theorem heading_label (i : Item) : i.heading = headingOf i.label.kind? := by
  rcases i with (f | ss | g | c | s | e) | f
  case node.stmt => cases s <;> rfl
  case node.expr => cases e <;> rfl
  all_goals rfl

theorem detail_label (i : Item) : i.detail = i.label.detail := by
  rcases i with (f | ss | g | c | s | e) | f
  case node.stmt => cases s <;> rfl
  case node.expr => cases e <;> rfl
  all_goals rfl

def headings : List (Option Kind) := [none, some .file, some .body, some .commentGroup,
  some .comment, some .attribute, some .block, some .ident, some .literal, some .array,
  some .object, some .access, some .index, some .call, some .unary, some .binary, some .paren]

theorem mem_headings (k : Option Kind) : k ∈ headings := by
  cases k with
  | none => decide
  | some k => cases k <;> decide

theorem headingOf_injective {k k' : Option Kind} (same : headingOf k = headingOf k') : k = k' := by
  have distinct : (headings.map headingOf).Nodup := by decide
  exact List.inj_on_of_nodup_map distinct (mem_headings k) (mem_headings k') same

theorem space_notMem_heading (k : Option Kind) : ' ' ∉ (headingOf k).toList := by
  have words : ∀ k ∈ headings, ' ' ∉ (headingOf k).toList := by decide
  exact words k (mem_headings k)

theorem heading_ne_nil (k : Option Kind) : (headingOf k).toList ≠ [] := by
  have words : ∀ k ∈ headings, (headingOf k).toList ≠ [] := by decide
  exact words k (mem_headings k)

theorem head?_heading (k : Option Kind) (rest : List Char) :
    ((headingOf k).toList ++ rest).head? ≠ some ' ' := by
  rw [List.head?_append_of_ne_nil _ (heading_ne_nil k)]
  exact fun space => space_notMem_heading k (List.mem_of_mem_head? space)

theorem symbol_injective {t u : Token} (same : t.symbol = u.symbol) : t = u := by
  have distinct : (Token.all.map Token.symbol).Nodup := by decide
  exact List.inj_on_of_nodup_map distinct (Token.mem_all t) (Token.mem_all u) same

theorem space_notMem_symbol (t : Token) : ' ' ∉ t.symbol.toList := by
  cases t <;> decide

theorem literal_injective {t u : Token} {v w : String}
    (same : t.symbol ++ " " ++ v = u.symbol ++ " " ++ w) : t = u ∧ v = w := by
  have lists : t.symbol.toList ++ ' ' :: v.toList = u.symbol.toList ++ ' ' :: w.toList := by
    simpa using congrArg String.toList same
  obtain ⟨symbol, text⟩ := cut_first lists (space_notMem_symbol t) (space_notMem_symbol u)
  exact ⟨symbol_injective (String.toList_injective symbol), String.toList_injective text⟩

theorem Label.ext_detail {l m : Label} (kind : l.kind? = m.kind?) (detail : l.detail = m.detail) :
    l = m := by
  cases l <;> cases m <;> simp only [Label.kind?, Option.some.injEq, reduceCtorEq] at kind
  case file.file => rw [Text.quoted_injective detail]
  case comment.comment => rw [Text.quoted_injective detail]
  case literal.literal =>
    obtain ⟨rfl, rfl⟩ := literal_injective detail
    rfl
  case unary.unary => rw [symbol_injective detail]
  case binary.binary => rw [symbol_injective detail]
  case block.block => exact congrArg Label.block detail
  case ident.ident => exact congrArg Label.ident detail
  case member.member => exact congrArg Label.member detail
  all_goals rfl

def Entry.row (e : Entry) : Row := ⟨e.depth, e.item.label, e.item.span?⟩

def lineTail (positions : Bool) (e : Entry) : List Char :=
  detailText e.item.detail ++ if positions then e.item.span?.elim [] (spanText false) else []

theorem lineBody_eq (style : Style) (e : Entry) :
    lineBody style false e = List.replicate (e.depth * style.indent) ' ' ++
      ((headingOf e.item.label.kind?).toList ++ lineTail style.positions e) := by
  simp [lineBody, lineTail, Paint.apply, heading_label]

theorem detailText_ends (detail : String) : EndsWord (detailText detail) := by
  unfold detailText
  split
  · exact .inl rfl
  · exact .inr ⟨_, rfl⟩

theorem detailText_injective {d d' : String} (same : detailText d = detailText d') : d = d' := by
  unfold detailText at same
  split at same <;> split at same
  · next empty empty' => rw [String.isEmpty_iff.mp empty, String.isEmpty_iff.mp empty']
  · cases same
  · cases same
  · exact String.toList_injective (List.cons.inj same).2

theorem lineTail_ends (positions : Bool) (e : Entry) : EndsWord (lineTail positions e) := by
  rcases detailText_ends e.item.detail with none | ⟨more, some⟩
  · cases positions with
    | false => exact .inl (by simp [lineTail, none])
    | true =>
      cases span : e.item.span? with
      | none => exact .inl (by simp [lineTail, none, span])
      | some s => exact .inr ⟨_, by simp only [lineTail, none, span]; rfl⟩
  · exact .inr ⟨_, by simp only [lineTail, some]; rfl⟩

theorem span?_kind? (i : Item) : i.span?.isSome = i.label.kind?.isSome := by
  rcases i with (f | ss | g | c | s | e) | f
  case node.stmt => cases s <;> rfl
  case node.expr => cases e <;> rfl
  all_goals rfl

/-- Details may hold spaces and brackets, but the span comes last and holds none. -/
theorem lineTail_injective {e d : Entry} (spans : e.item.span?.isSome = d.item.span?.isSome)
    (same : lineTail true e = lineTail true d) :
    e.item.detail = d.item.detail ∧ e.item.span? = d.item.span? := by
  simp only [lineTail, if_true] at same
  cases left : e.item.span? with
  | none =>
    cases right : d.item.span? with
    | some t => simp [left, right] at spans
    | none =>
      simp only [left, right, Option.elim_none, List.append_nil] at same
      exact ⟨detailText_injective same, rfl⟩
  | some s =>
    cases right : d.item.span? with
    | none => simp [left, right] at spans
    | some t =>
      have bracketed (u : Span) : '[' ∉ u.text.toList ++ [']'] := by
        simp [bracket_notMem_span]
      have cut : (detailText e.item.detail ++ [' ']) ++ '[' :: (s.text.toList ++ [']']) =
          (detailText d.item.detail ++ [' ']) ++ '[' :: (t.text.toList ++ [']']) := by
        simpa [left, right, spanText, Paint.apply] using same
      obtain ⟨detail, span⟩ := cut_last cut (bracketed s) (bracketed t)
      exact ⟨detailText_injective (List.append_cancel_right detail),
        congrArg some (spanText_injective (List.append_cancel_right span))⟩

/-- A line that shows positions is written for one row alone. -/
theorem row_of_lineBody {style : Style} (positions : style.positions = true)
    (indented : 0 < style.indent) {e d : Entry}
    (same : lineBody style false e = lineBody style false d) : e.row = d.row := by
  rw [lineBody_eq, lineBody_eq, positions] at same
  obtain ⟨depth, same⟩ := cut_indent (head?_heading _ _) (head?_heading _ _) same
  obtain ⟨heading, tail⟩ := cut_word same (space_notMem_heading _) (space_notMem_heading _)
    (lineTail_ends true e) (lineTail_ends true d)
  have kind := headingOf_injective (String.toList_injective heading)
  obtain ⟨detail, span⟩ := lineTail_injective
    (by rw [span?_kind?, span?_kind?, kind]) tail
  have label := Label.ext_detail kind (by rw [← detail_label, ← detail_label, detail])
  simp [Entry.row, Nat.eq_of_mul_eq_mul_right indented depth, label, span]

theorem Sketch.rowsAll_eq (depth : Nat) (ss : List Sketch) :
    rowsAll depth ss = ss.flatMap (rows depth) := by
  induction ss with
  | nil => rfl
  | cons s ss ih => simp [rowsAll, ih]

theorem sketch_object (fs : List Field) (l r : Pos) :
    sketch (.expr (.object fs l r)) =
      .mk .object (some (Node.expr (.object fs l r)).span) (fs.map fun f =>
        .mk (Item.field f).label none [sketch (.ident f.name), sketch (.expr f.value)]) := by
  rw [sketch]
  simp

theorem sketch_other {n : Node} (other : n.kind ≠ .object) :
    sketch n = .mk (Item.node n).label (some n.span) (n.children.map sketch) := by
  rw [sketch]
  · simp
  · rintro fs l r rfl
    exact other rfl

/-- The rows of a sketch are the entries of an outline that leaves nothing out. -/
theorem rows_sketch (depth : Nat) (n : Node) :
    (sketch n).rows depth = (entries true depth n).map Entry.row := by
  induction n using Node.byChildren generalizing depth with
  | step n ih =>
    by_cases object : n.kind = .object
    · obtain ⟨fs, l, r, rfl⟩ := of_kind_object object
      rw [sketch_object, entries_object, Sketch.rows, Sketch.rowsAll_eq, List.flatMap_map,
        List.map_cons, List.map_flatMap]
      congr 1
      refine List.flatMap_congr fun f member => ?_
      have name := ih (.ident f.name) (name_child member l r)
      have value := ih (.expr f.value) (value_child member l r)
      simp [Sketch.rows, Sketch.rowsAll, name, value, memberEntries, Entry.row, Item.span?]
    · have shown : shownChildren true n = n.children := by simp [shownChildren]
      rw [sketch_other object, entries_children _ _ object, Sketch.rows, Sketch.rowsAll_eq,
        List.flatMap_map, List.map_cons, List.map_flatMap, shown]
      congr 1
      exact List.flatMap_congr fun c below => ih c below (depth + 1)

/-- Rows that go on at a lower depth than what is before them. -/
def Returns (depth : Nat) (rows : List Row) : Prop := ∀ r ∈ rows.head?, r.depth ≤ depth

theorem returns_rowsAll (ss : List Sketch) (returns : Returns depth r) :
    Returns (depth + 1) (Sketch.rowsAll (depth + 1) ss ++ r) := by
  rcases ss with _ | ⟨⟨label, span?, below⟩, ss⟩
  · exact fun row head => Nat.le_succ_of_le (returns row head)
  · rintro row ⟨⟩
    exact Nat.le_refl (depth + 1)

mutual

/-- The rows of a sketch tell where it ends, and what it is. -/
theorem Sketch.rows_cancel : ∀ (s t : Sketch) (depth : Nat) (r r' : List Row),
    Returns depth r → Returns depth r' → s.rows depth ++ r = t.rows depth ++ r' → s = t ∧ r = r'
  | .mk label span? below, .mk label' span?' below', depth, r, r', returns, returns', same => by
    simp only [rows, List.cons_append, List.cons.injEq, Row.mk.injEq, true_and] at same
    obtain ⟨⟨rfl, rfl⟩, same⟩ := same
    obtain ⟨rfl, rfl⟩ := rowsAll_cancel below below' depth r r' returns returns' same
    exact ⟨rfl, rfl⟩

theorem Sketch.rowsAll_cancel : ∀ (ss ts : List Sketch) (depth : Nat) (r r' : List Row),
    Returns depth r → Returns depth r' →
    rowsAll (depth + 1) ss ++ r = rowsAll (depth + 1) ts ++ r' → ss = ts ∧ r = r'
  | [], [], _, _, _, _, _, same => ⟨rfl, same⟩
  | [], .mk label span? below :: ts, depth, r, r', returns, _, same => by
    subst same
    exact absurd (returns _ rfl) (Nat.not_succ_le_self depth)
  | .mk label span? below :: ss, [], depth, r, r', _, returns', same => by
    subst same
    exact absurd (returns' _ rfl) (Nat.not_succ_le_self depth)
  | s :: ss, t :: ts, depth, r, r', returns, returns', same => by
    simp only [rowsAll, List.append_assoc] at same
    obtain ⟨rfl, rest⟩ := rows_cancel s t (depth + 1) _ _ (returns_rowsAll ss returns)
      (returns_rowsAll ts returns') same
    obtain ⟨rfl, rfl⟩ := rowsAll_cancel ss ts depth r r' returns returns' rest
    exact ⟨rfl, rfl⟩

end

theorem Sketch.rows_injective {s t : Sketch} (same : s.rows depth = t.rows depth) : s = t := by
  have nothing : Returns depth [] := by simp [Returns]
  exact (rows_cancel s t depth [] [] nothing nothing (by simp [same])).1

theorem rows_of_lines {style : Style} (positions : style.positions = true)
    (indented : 0 < style.indent) {es ds : List Entry}
    (same : es.map (lineBody style false) = ds.map (lineBody style false)) :
    es.map Entry.row = ds.map Entry.row := by
  induction es generalizing ds with
  | nil => rw [List.map_eq_nil_iff.mp same.symm]
  | cons e es ih =>
    cases ds with
    | nil => cases same
    | cons d ds =>
      simp only [List.map_cons, List.cons.injEq] at same ⊢
      exact ⟨row_of_lineBody positions indented same.1, ih same.2⟩

/-- Two nodes with the same outline, positions and comments shown, differ in nothing that an outline
shows: their trees have the same kinds, spans, names, texts and tokens in the same places. -/
theorem sketch_of_text (style : Style) (allowed allowed' : Bool) (a b : Node)
    (uncolored : style.color = false) (positions : style.positions = true)
    (comments : style.comments = true) (indented : 1 ≤ style.indent) (unbroken : a.Unbroken)
    (unbroken' : b.Unbroken) (same : text style allowed a = text style allowed' b) :
    sketch a = sketch b := by
  have lines : (entries true 0 a).map (lineBody style false) =
      (entries true 0 b).map (lineBody style false) := by
    have split := congrArg (fun t => Text.lines t.toList) same
    simpa only [lines_text style _ unbroken, lines_text style _ unbroken', uncolored, comments,
      Bool.false_and] using split
  have rows := rows_of_lines positions indented lines
  rw [← rows_sketch, ← rows_sketch] at rows
  exact Sketch.rows_injective rows

/-- A block whose name, given in one part or in two, is shown as `a.b`. -/
def dottedBlock (name : BlockName) (lcurly : Nat) : Node :=
  .stmt (.block name (.ofOffset 0) (some "c\n") [.attribute ⟨"d [1-2]", .unplaced⟩
    (.object [⟨⟨"e f", .ofOffset 20⟩, true, .literal .string (.ofOffset 26) "\"\\n ]\""⟩]
      (.ofOffset 18) .unplaced)] (.ofOffset lcurly) (.ofOffset 40))

theorem sketch_of_dottedBlock :
    text {} true (dottedBlock ⟨"a", ["b"]⟩ 9) = text {} false (dottedBlock ⟨"a.b", []⟩ 8) ∧
    sketch (dottedBlock ⟨"a", ["b"]⟩ 9) = sketch (dottedBlock ⟨"a.b", []⟩ 8) := by
  have same : text {} true (dottedBlock ⟨"a", ["b"]⟩ 9) =
      text {} false (dottedBlock ⟨"a.b", []⟩ 8) := by
    rw [text_eq, text_eq]
    decide +kernel
  exact ⟨same, sketch_of_text {} true false _ _ rfl rfl rfl (by decide) (by decide +kernel)
    (by decide +kernel) same⟩

end River.Outline
