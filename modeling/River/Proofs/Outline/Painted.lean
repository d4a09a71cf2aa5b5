import Mathlib.Data.List.Infix
import River.Proofs.Outline.Lines

/-! Paint decorates an outline and changes nothing else. What an outline shows may hold sequences of
its own, whole ones or parts, so deleting the paint deletes these as well; but no sequence reaches
over the places where paint begins and ends, and what is left is what is left of the plain outline. -/
namespace River.Outline

namespace Paint

/-- Everything that paint puts into a text. -/
def sequences : List (List Char) := [heading.code, span.code, stop]

theorem escape_of_sequence (member : q ∈ sequences) : ∃ tail, q = '\x1b' :: tail := by
  simp only [sequences, List.mem_cons, List.not_mem_nil, or_false] at member
  rcases member with rfl | rfl | rfl <;> exact ⟨_, rfl⟩

theorem strip_sequence (member : q ∈ sequences) (s : List Char) : strip (q ++ s) = strip s := by
  simp only [sequences, List.mem_cons, List.not_mem_nil, or_false] at member
  rcases member with rfl | rfl | rfl <;> simp [code, stop, strip]

/-- What does not start with a sequence keeps its first character. -/
theorem strip_cons (raw : ∀ q ∈ sequences, ¬q <+: c :: s) : strip (c :: s) = c :: strip s := by
  generalize whole : c :: s = text at raw
  conv_lhs => unfold strip
  split
  · cases whole
  · exact absurd ⟨_, rfl⟩ (raw stop (by simp [sequences]))
  · exact absurd ⟨_, rfl⟩ (raw span.code (by simp [sequences]))
  · exact absurd ⟨_, rfl⟩ (raw heading.code (by simp [sequences]))
  · cases whole
    rfl

theorem strip_append (solid : '\x1b' ∉ s) (t : List Char) : strip (s ++ t) = s ++ strip t := by
  induction s with
  | nil => rfl
  | cons c s ih =>
    rw [List.mem_cons, not_or] at solid
    have raw : ∀ q ∈ sequences, ¬q <+: c :: (s ++ t) := by
      intro q member starts
      obtain ⟨tail, rfl⟩ := escape_of_sequence member
      exact solid.1 (List.cons_prefix_cons.mp starts).1
    rw [List.cons_append, strip_cons raw, ih solid.2, List.cons_append]

theorem strip_solid (solid : '\x1b' ∉ s) : strip s = s := by
  simpa [strip] using strip_append solid []

/-- A sequence does not reach over a character that no sequence has. -/
theorem prefix_of_apart {q s : List Char} (apart : c ∉ q) (starts : q <+: s ++ c :: t) :
    q <+: s := by
  rcases Nat.lt_or_ge s.length q.length with long | short
  · have longer : s ++ [c] <+: s ++ c :: t := ⟨t, by simp⟩
    have inside : s ++ [c] <+: q := List.prefix_of_prefix_length_le longer starts
      (by simpa using Nat.succ_le_of_lt long)
    exact absurd (inside.subset (by simp)) apart
  · exact List.prefix_of_prefix_length_le starts (List.prefix_append s _) short

/-- Deleting goes piece by piece at such a character. -/
theorem strip_append_cons (apart : ∀ q ∈ sequences, c ∉ q) (s t : List Char) :
    strip (s ++ c :: t) = strip s ++ strip (c :: t) := by
  induction size : s.length using Nat.strongRecOn generalizing s with
  | _ n ih =>
    by_cases starts : ∃ q ∈ sequences, q <+: s
    · obtain ⟨q, member, s, rfl⟩ := starts
      obtain ⟨tail, rfl⟩ := escape_of_sequence member
      have shorter : s.length < n := by
        rw [← size, List.length_append, List.length_cons]
        omega
      rw [List.append_assoc, strip_sequence member, strip_sequence member, ih _ shorter s rfl]
    · cases s with
      | nil => rfl
      | cons d s =>
        have raw : ∀ q ∈ sequences, ¬q <+: d :: s := fun q member h => starts ⟨q, member, h⟩
        have raw' : ∀ q ∈ sequences, ¬q <+: d :: (s ++ c :: t) := fun q member h =>
          raw q member (prefix_of_apart (apart q member) h)
        have shorter : s.length < n := size ▸ Nat.lt_succ_self _
        rw [List.cons_append, strip_cons raw', strip_cons raw, ih _ shorter s rfl,
          List.cons_append]

theorem strip_apply (p : Paint) (on : Bool) (solid : '\x1b' ∉ s) (t : List Char) :
    strip (p.apply on s ++ t) = s ++ strip t := by
  have code : p.code ∈ sequences := by cases p <;> simp [sequences]
  have stop : Paint.stop ∈ sequences := by simp [sequences]
  cases on with
  | false => exact strip_append solid t
  | true =>
    rw [apply, if_pos rfl, List.append_assoc, List.append_assoc, strip_sequence code,
      strip_append solid, strip_sequence stop]

end Paint

open Paint

def shownSpan (style : Style) (painted : Bool) (i : Item) : List Char :=
  if style.positions then i.span?.elim [] (spanText painted) else []

def strippedLine (style : Style) (e : Entry) : List Char :=
  List.replicate (e.depth * style.indent) ' '
    ++ (e.item.heading.toList
    ++ (strip (detailText e.item.detail)
    ++ (shownSpan style false e.item
    ++ ['\n'])))

variable (style : Style) (painted : Bool)

theorem escape_notMem {s : List Char} (visible : Text.Visible s) : '\x1b' ∉ s :=
  visible.notMem (by decide)

theorem visible_brackets (s : Span) : Text.Visible ('[' :: (s.text.toList ++ [']'])) :=
  List.forall_mem_cons.mpr ⟨by decide, (visible_span s).append (by decide)⟩

theorem strip_shownSpan (i : Item) (t : List Char) :
    strip (shownSpan style painted i ++ '\n' :: t) =
      shownSpan style false i ++ '\n' :: strip t := by
  have lineBreak : strip ('\n' :: t) = '\n' :: strip t := strip_append (s := ['\n']) (by decide) t
  have spanned (s : Span) : strip (spanText painted s ++ '\n' :: t) =
      spanText false s ++ '\n' :: strip t := by
    have solid := escape_notMem (visible_brackets s)
    have space := strip_append (s := [' ']) (by decide)
      (Paint.span.apply painted ('[' :: (s.text.toList ++ [']'])) ++ '\n' :: t)
    rw [strip_apply _ _ solid, lineBreak] at space
    exact space
  unfold shownSpan
  cases style.positions <;> cases i.span? <;> simp [spanned, lineBreak]

/-- What follows a detail does not start inside of a sequence. -/
theorem shownSpan_starts (i : Item) (t : List Char) : ∃ c rest,
    shownSpan style painted i ++ '\n' :: t = c :: rest ∧ ∀ q ∈ sequences, c ∉ q := by
  unfold shownSpan
  cases style.positions <;> cases i.span? <;> exact ⟨_, _, rfl, by decide⟩

theorem strip_lineText (e : Entry) (t : List Char) :
    strip (lineText style painted e ++ t) = strippedLine style e ++ strip t := by
  have spaces : '\x1b' ∉ List.replicate (e.depth * style.indent) ' ' := by simp
  obtain ⟨c, rest, next, apart⟩ := shownSpan_starts style painted e.item t
  have tail : strip (c :: rest) = shownSpan style false e.item ++ '\n' :: strip t := by
    rw [← next, strip_shownSpan]
  have line : lineText style painted e ++ t = List.replicate (e.depth * style.indent) ' '
      ++ (Paint.heading.apply painted e.item.heading.toList
      ++ (detailText e.item.detail ++ c :: rest)) := by
    simp [lineText, ← next, shownSpan]
  rw [line, strip_append spaces, strip_apply _ _ (escape_notMem (visible_heading e.item)),
    strip_append_cons apart, tail]
  simp [strippedLine]

theorem strip_lines (es : List Entry) :
    strip (es.flatMap (lineText style painted)) = es.flatMap (strippedLine style) := by
  induction es with
  | nil => rfl
  | cons e es ih => rw [List.flatMap_cons, strip_lineText, ih, List.flatMap_cons]

/-- A plain line has no sequence unless a text of the source brings one. -/
theorem escape_notMem_lineText {e : Entry} (solid : '\x1b' ∉ e.item.rawText.toList) :
    '\x1b' ∉ lineText style false e := by
  have detail : '\x1b' ∉ e.item.detail.toList := by
    rw [← List.count_eq_zero, count_detail (by decide)]
    exact List.count_eq_zero.mpr solid
  have detailed : '\x1b' ∉ detailText e.item.detail := by
    unfold detailText
    split <;> simp [detail]
  have heading := escape_notMem (visible_heading e.item)
  have spanned (s : Span) : '\x1b' ∉ spanText false s := by
    simpa [spanText, apply] using escape_notMem (visible_brackets s)
  have shown : '\x1b' ∉ shownSpan style false e.item := by
    unfold shownSpan
    cases style.positions <;> cases e.item.span? <;> simp [spanned]
  have unpainted : Paint.heading.apply false e.item.heading.toList = e.item.heading.toList := rfl
  unfold shownSpan at shown
  simp [lineText, unpainted, heading, detailed, shown]

theorem text_unpainted (colorAllowed : Bool) (n : Node) :
    text { style with color := false } colorAllowed n =
      String.ofList ((entries style.comments 0 n).flatMap (lineText style false)) := text_eq _ _ _

theorem text_allowed (colorAllowed : Bool) (n : Node) :
    text { style with color := true } colorAllowed n =
      String.ofList ((entries style.comments 0 n).flatMap (lineText style colorAllowed)) :=
  text_eq _ _ _

/-- Without its sequences a painted outline is what the plain one is without its own, so the plain
one itself if no text of the source has any; both have the same line breaks. Where no color is
allowed nothing is painted. -/
theorem text_painted (style : Style) (n : Node) (colorAllowed : Bool) :
    let painted := text { style with color := true } true n
    let plain := text { style with color := false } colorAllowed n
    strip painted.toList = strip plain.toList ∧
    ((∀ e ∈ entries style.comments 0 n, '\x1b' ∉ e.item.rawText.toList) →
      strip painted.toList = plain.toList) ∧
    painted.toList.count '\n' = plain.toList.count '\n' ∧
    text { style with color := true } false n = plain := by
  intro painted plain
  simp only [painted, plain, text_unpainted, text_allowed, String.toList_ofList]
  have same := strip_lines style true (entries style.comments 0 n)
  rw [← strip_lines style false] at same
  refine ⟨same, fun solid => ?_, ?_, trivial⟩
  · rw [same, strip_solid]
    intro member
    obtain ⟨e, listed, inside⟩ := List.mem_flatMap.mp member
    exact escape_notMem_lineText style (solid e listed) inside
  · rw [count_lines, count_lines]

/-- A name that goes on like a sequence, without the character that opens one. -/
def sequenceTail : Node := .expr (.paren (.ident ⟨"[0m", .ofOffset 1⟩) (.ofOffset 0) (.ofOffset 4))

theorem text_painted_sequenceTail :
    (∀ e ∈ entries true 0 sequenceTail, '\x1b' ∉ e.item.rawText.toList) ∧
    strip (text { color := true } true sequenceTail).toList =
      (text { color := false } true sequenceTail).toList := by
  have solid : ∀ e ∈ entries true 0 sequenceTail, '\x1b' ∉ e.item.rawText.toList := by decide
  exact ⟨solid, (text_painted {} sequenceTail true).2.1 solid⟩

end River.Outline
