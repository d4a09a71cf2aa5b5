import River.Proofs.Node.Spans
import River.Source

/-! All nodes of a tree can be located in a text if their ends are in it. In source order the ends of
the anchors are enough, except that nodes with nothing in them are nowhere. -/
namespace River

/-- An offset that a text of this size has; the one just past the last byte counts. -/
def Pos.Inside : Pos → (size : Nat) → Prop
  | .unplaced, _ => False
  | .byte offset _, size => offset ≤ size

instance : (p : Pos) → (size : Nat) → Decidable (p.Inside size)
  | .unplaced, _ => inferInstanceAs (Decidable False)
  | .byte offset _, size => inferInstanceAs (Decidable (offset ≤ size))

def Span.Inside (s : Span) (size : Nat) : Prop := s.first.Inside size ∧ s.last.Inside size

namespace SourceFile

/-- What is said of a position that is not in the text. -/
inductive Rejects (f : SourceFile) : Pos → Report → Prop where
  | unplaced : f.Rejects .unplaced Unlocated.unplaced.report
  | beyond : f.size < offset →
      f.Rejects (.byte offset bound) (Unlocated.beyond offset f.name f.size).report

/-- What is said of a span: its end only counts if its start is in the text. -/
inductive RejectsSpan (f : SourceFile) (s : Span) (r : Report) : Prop where
  | start : f.Rejects s.first r → f.RejectsSpan s r
  | stop : s.first.Inside f.size → f.Rejects s.last r → f.RejectsSpan s r

end SourceFile

/-- Lines come first, then columns. -/
def Location.NoLater (l m : Location) : Prop :=
  l.line < m.line ∨ l.line = m.line ∧ l.column ≤ m.column

def Location.Before (l m : Location) : Prop :=
  l.line < m.line ∨ l.line = m.line ∧ l.column < m.column

namespace Node

/-- The lines and columns of a node, or a report. -/
def locate (f : SourceFile) (n : Node) : Except Report Stretch :=
  (f.stretch n.span).mapError Unlocated.report

/-- Locates every node of a walk, until one has no location. -/
def locateAll (f : SourceFile) (n : Node) : Except Report Unit :=
  n.walk fun c => (c.locate f).map fun _ => ()

end Node

/-- No anchor and no comment of a file goes beyond a text. -/
structure File.EndsInside (f : File) (size : Nat) : Prop where
  anchors : ∀ a ∈ (Node.file f).anchors, a.last.Inside size
  comments : ∀ g ∈ f.comments, ∀ c ∈ g, c.last.Inside size

theorem Pos.Inside.of_le {p q : Pos} (placed : p.isPlaced = true) (le : p ≤ q)
    (inside : q.Inside size) : p.Inside size := by
  cases p with
  | unplaced => cases placed
  | byte m _ =>
    cases q with
    | unplaced => cases inside
    | byte n _ => exact Nat.le_trans (Nat.le_of_succ_le_succ le) inside

namespace SourceFile

variable {f : SourceFile} {p q : Pos}

theorem Rejects.outside (rejects : f.Rejects p r) : ¬p.Inside f.size := by
  cases rejects with
  | unplaced => exact id
  | beyond past => exact Nat.not_le_of_lt past

theorem Rejects.unique (left : f.Rejects p r) (right : f.Rejects p r') : r = r' := by
  cases left <;> cases right <;> rfl

theorem RejectsSpan.outside (rejects : f.RejectsSpan s r) : ¬s.Inside f.size := by
  intro inside
  cases rejects with
  | start first => exact first.outside inside.1
  | stop _ last => exact last.outside inside.2

theorem RejectsSpan.unique (left : f.RejectsSpan s r) (right : f.RejectsSpan s r') : r = r' := by
  cases left with
  | start first =>
    cases right with
    | start first' => exact first.unique first'
    | stop inside => exact absurd inside first.outside
  | stop inside last =>
    cases right with
    | start first => exact absurd inside first.outside
    | stop _ last' => exact last.unique last'

theorem locate_cases (f : SourceFile) (p : Pos) :
    (p.Inside f.size ∧ ∃ l, f.locate p = .ok l) ∨
      ∃ e, f.locate p = .error e ∧ f.Rejects p e.report := by
  cases p with
  | unplaced => exact .inr ⟨_, rfl, .unplaced⟩
  | byte offset bound =>
    rw [locate_byte]
    split
    · next past => exact .inr ⟨_, rfl, .beyond past⟩
    · next bounded => exact .inl ⟨Nat.le_of_not_lt bounded, _, rfl⟩

theorem laterLines_mono (f : SourceFile) (le : m ≤ n) : f.laterLines m ≤ f.laterLines n := by
  unfold laterLines
  induction f.laterStarts with
  | nil => exact Nat.le_refl _
  | cons start starts ih =>
    simp only [List.takeWhile_cons, decide_eq_true_eq]
    split
    · next holds =>
      rw [if_pos (Nat.le_trans holds le)]
      exact Nat.succ_le_succ ih
    · exact Nat.zero_le _

theorem takeWhile_lineStarts (f : SourceFile) (offset : Nat) :
    f.lineStarts.takeWhile (· ≤ offset) = 0 :: f.laterStarts.takeWhile (· ≤ offset) := by
  simp [lineStarts]

theorem lineStart_le (f : SourceFile) (offset : Nat) : f.lineStart offset ≤ offset := by
  have inside : f.laterLines offset < (f.lineStarts.takeWhile (· ≤ offset)).length := by
    rw [takeWhile_lineStarts]
    exact Nat.lt_succ_self _
  have entry := (List.takeWhile_prefix (l := f.lineStarts) (· ≤ offset)).getElem inside
  have holds := List.all_eq_true.1 List.all_takeWhile _ (List.getElem_mem inside)
  rw [entry] at holds
  exact of_decide_eq_true holds

theorem locate_before (earlier : p < q) (start : f.locate p = .ok l) (stop : f.locate q = .ok m) :
    l.Before m := by
  cases p with
  | unplaced => cases start
  | byte i _ =>
    cases q with
    | unplaced => cases stop
    | byte j _ =>
      have lt : i < j := Nat.lt_of_succ_lt_succ earlier
      rw [locate_byte] at start stop
      split at start
      · cases start
      · split at stop
        · cases stop
        · cases start
          cases stop
          rcases Nat.lt_or_eq_of_le (f.laterLines_mono (Nat.le_of_lt lt)) with fewer | same
          · exact .inl (Nat.succ_lt_succ fewer)
          · refine .inr ⟨congrArg (· + 1) same, ?_⟩
            -- on one line the columns count from the same start
            have starts : f.lineStart i = f.lineStart j := by simp only [lineStart, same]
            have := f.lineStart_le i
            show i - f.lineStart i + 1 < j - f.lineStart j + 1
            omega

theorem locate_mono (forward : p ≤ q) (start : f.locate p = .ok l) (stop : f.locate q = .ok m) :
    l.NoLater m := by
  rcases Nat.lt_or_eq_of_le forward with earlier | same
  · exact (locate_before earlier start stop).imp_right (And.imp_right Nat.le_of_lt)
  · rw [Pos.rank_injective same, stop] at start
    cases start
    exact .inr ⟨rfl, Nat.le_refl _⟩

end SourceFile

theorem forM_ok_iff {visit : α → Except ε PUnit} {l : List α} :
    l.forM visit = .ok ⟨⟩ ↔ ∀ a ∈ l, visit a = .ok ⟨⟩ := by
  induction l with
  | nil => simp [pure, Except.pure]
  | cons a l ih =>
    rw [List.forM_eq_forM, List.forM_cons, ← List.forM_eq_forM, List.forall_mem_cons, ← ih]
    cases visit a <;> simp [bind, Except.bind]

theorem forM_error_iff {visit : α → Except ε PUnit} {l : List α} :
    l.forM visit = .error e ↔ ∃ before a after, l = before ++ a :: after ∧
      (∀ b ∈ before, visit b = .ok ⟨⟩) ∧ visit a = .error e := by
  constructor
  · intro failed
    induction l with
    | nil => cases failed
    | cons a l ih =>
      rw [List.forM_eq_forM, List.forM_cons, ← List.forM_eq_forM] at failed
      cases outcome : visit a with
      | error e' =>
        rw [outcome] at failed
        cases failed
        exact ⟨[], a, l, rfl, nofun, outcome⟩
      | ok u =>
        rw [outcome] at failed
        obtain ⟨before, b, after, rfl, passed, failed⟩ := ih failed
        exact ⟨a :: before, b, after, rfl, List.forall_mem_cons.2 ⟨outcome, passed⟩, failed⟩
  · rintro ⟨before, a, after, rfl, passed, failed⟩
    rw [List.forM_eq_forM, List.forM_append, ← List.forM_eq_forM, forM_ok_iff.2 passed,
      List.forM_eq_forM, List.forM_cons, failed]
    rfl

namespace Node

variable {f : SourceFile} {n : Node}

theorem locate_cases (f : SourceFile) (n : Node) :
    (n.span.Inside f.size ∧ ∃ l m, n.locate f = .ok ⟨l, m⟩ ∧ f.locate n.first = .ok l ∧
      f.locate n.last = .ok m) ∨
    ∃ r, n.locate f = .error r ∧ f.RejectsSpan n.span r := by
  unfold locate SourceFile.stretch
  rcases f.locate_cases n.first with ⟨inside, l, start⟩ | ⟨e, start, rejects⟩
  · rcases f.locate_cases n.last with ⟨inside', m, stop⟩ | ⟨e, stop, rejects⟩
    · exact .inl ⟨⟨inside, inside'⟩, l, m, by rw [span, start, stop]; rfl, start, stop⟩
    · exact .inr ⟨e.report, by rw [span, start, stop]; rfl, .stop inside rejects⟩
  · exact .inr ⟨e.report, by rw [span, start]; rfl, .start rejects⟩

theorem locate_error_iff : n.locate f = .error r ↔ f.RejectsSpan n.span r := by
  rcases locate_cases f n with ⟨inside, l, m, located, -⟩ | ⟨r', failed, rejects⟩
  · rw [located]
    exact ⟨nofun, fun rejects => absurd inside rejects.outside⟩
  · rw [failed]
    exact ⟨fun same => Except.error.inj same ▸ rejects, fun other =>
      congrArg Except.error (rejects.unique other)⟩

theorem visit_ok_iff : ((n.locate f).map fun _ => ()) = .ok () ↔ n.span.Inside f.size := by
  rcases locate_cases f n with ⟨inside, l, m, located, -⟩ | ⟨r, failed, rejects⟩
  · rw [located]
    exact ⟨fun _ => inside, fun _ => rfl⟩
  · rw [failed]
    exact ⟨nofun, fun inside => absurd inside rejects.outside⟩

theorem visit_error_iff : ((n.locate f).map fun _ => ()) = .error r ↔ f.RejectsSpan n.span r := by
  rw [← locate_error_iff]
  cases n.locate f with
  | error r' => exact ⟨fun | rfl => rfl, fun | rfl => rfl⟩
  | ok s => exact ⟨nofun, nofun⟩

theorem locateAll_ok_iff : n.locateAll f = .ok () ↔ ∀ c ∈ n.preorder, c.span.Inside f.size := by
  rw [locateAll, walk_preorder, forM_ok_iff]
  exact forall₂_congr fun c _ => visit_ok_iff

theorem locateAll_error_iff : n.locateAll f = .error r ↔ ∃ before c after,
    n.preorder = before ++ c :: after ∧ (∀ b ∈ before, b.span.Inside f.size) ∧
      f.RejectsSpan c.span r := by
  rw [locateAll, walk_preorder, forM_error_iff]
  simp only [visit_ok_iff, visit_error_iff]

theorem locate_of_empty (empty : n.Empty) : n.locate f = .error Unlocated.unplaced.report := by
  rw [locate_error_iff, span_of_empty empty]
  exact .start .unplaced

theorem anchors_inside {file' : File} (ends : file'.EndsInside size)
    (below : n ∈ (file file').preorder) : ∀ a ∈ n.anchors, a.last.Inside size := by
  intro a member
  rcases below_file below with part | ⟨g, listed, part⟩
  · exact ends.anchors a (part.subset member)
  · obtain ⟨c, comment, rfl⟩ := List.mem_map.1 (part.subset member)
    exact ends.comments g listed c comment

/-- What is not empty is in the text, since its span ends with an anchor. -/
theorem span_inside (ordered : Span.Ordered n.anchors) (ends : ∀ a ∈ n.anchors, a.last.Inside size)
    (solid : ¬n.Empty) : n.span.Inside size := by
  have own := ordered.sublist n.ownAnchors_sublist
  obtain ⟨a, member, last⟩ := Span.exists_hull_last (ownAnchors_ne_nil solid)
  have placed := own.hull_placed (ownAnchors_ne_nil solid)
  rw [← span_hull] at last placed
  have inside : n.span.last.Inside size := last ▸ ends a (n.ownAnchors_sublist.subset member)
  exact ⟨inside.of_le (Bool.and_eq_true_iff.1 placed).1 (first_le_last ordered solid), inside⟩

theorem locate_of_solid (ordered : Span.Ordered n.anchors)
    (ends : ∀ a ∈ n.anchors, a.last.Inside f.size) (solid : ¬n.Empty) :
    ∃ l m, n.locate f = .ok ⟨l, m⟩ ∧ l.NoLater m := by
  rcases locate_cases f n with ⟨_, l, m, located, start, stop⟩ | ⟨r, _, rejects⟩
  · exact ⟨l, m, located, SourceFile.locate_mono (first_le_last ordered solid) start stop⟩
  · exact absurd (span_inside ordered ends solid) rejects.outside

end Node

/-- Whether all nodes of a tree are located in a text, and what keeps a file in source order from
it: nothing but what is empty. -/
theorem Node.locateAll_in_text (name text : String) :
    (∀ n : Node,
      (n.locateAll (.index name text) = .ok () ↔
        ∀ c ∈ n.preorder, c.span.Inside text.utf8ByteSize) ∧
      ∀ r, n.locateAll (.index name text) = .error r ↔ ∃ before c after,
        n.preorder = before ++ c :: after ∧ (∀ b ∈ before, b.span.Inside text.utf8ByteSize) ∧
        (SourceFile.index name text).RejectsSpan c.span r) ∧
    ∀ f : File, (file f).SourceOrdered → f.EndsInside text.utf8ByteSize →
      (∀ c ∈ (file f).preorder,
        (¬c.Empty → ∃ l m, c.locate (.index name text) = .ok ⟨l, m⟩ ∧ l.NoLater m) ∧
        (c.Empty → ∃ r, c.locate (.index name text) = .error r ∧ r.fault = .invalidPosition ∧
          r.message = "node has no position")) ∧
      ((file f).locateAll (.index name text) = .ok () ↔ ∀ c ∈ (file f).preorder, ¬c.Empty) := by
  refine ⟨fun n => ⟨locateAll_ok_iff, fun r => locateAll_error_iff⟩, fun f sorted ends =>
    ⟨fun c below => ⟨fun solid => ?_, fun empty => ?_⟩, ?_⟩⟩
  · exact locate_of_solid (sorted.ordered below) (anchors_inside ends below) solid
  · exact ⟨_, locate_of_empty empty, rfl, rfl⟩
  · rw [locateAll_ok_iff]
    refine forall₂_congr fun c below => ⟨fun inside empty => ?_, fun solid => ?_⟩
    · rw [span_of_empty empty] at inside
      exact inside.1
    · exact span_inside (sorted.ordered below) (anchors_inside ends below) solid

/-- `a { }`, a line break, and a comment -/
def emptyBlock : File where
  name := "f.river"
  body := [.block ⟨"a", []⟩ (.ofOffset 0) none [] (.ofOffset 2) (.ofOffset 4)]
  comments := [[⟨.ofOffset 6, "// c"⟩]]

theorem emptyBlock_sorted : (Node.file emptyBlock).SourceOrdered := by
  refine ⟨by decide, fun g below => ?_⟩
  simp [Node.preorder, emptyBlock, Stmt.preorderAll, Stmt.preorder, Node.groupPreorder] at below
  subst below
  decide

theorem locateAll_emptyBlock : (Node.file emptyBlock).SourceOrdered ∧ emptyBlock.EndsInside 10 ∧
    (∃ l m, (Node.file emptyBlock).locate (.index "f.river" "a { }\n// c") = .ok ⟨l, m⟩ ∧
      l.NoLater m) ∧
    (∃ r, (Node.body []).locate (.index "f.river" "a { }\n// c") = .error r ∧
      r.fault = .invalidPosition ∧ r.message = "node has no position") ∧
    (Node.file emptyBlock).locateAll (.index "f.river" "a { }\n// c") ≠ .ok () := by
  have ends : emptyBlock.EndsInside 10 := ⟨by decide, by decide⟩
  have inside : Node.body [] ∈ (Node.file emptyBlock).preorder := by
    simp [Node.preorder, emptyBlock, Stmt.preorderAll, Stmt.preorder]
  obtain ⟨each, all⟩ := (Node.locateAll_in_text "f.river" "a { }\n// c").2 emptyBlock
    emptyBlock_sorted ends
  exact ⟨emptyBlock_sorted, ends, (each _ (Node.mem_preorder.2 (.inl rfl))).1 (List.cons_ne_nil _ _),
    (each _ inside).2 rfl, fun located => all.1 located _ inside rfl⟩

end River
