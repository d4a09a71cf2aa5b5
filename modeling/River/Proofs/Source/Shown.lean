import River.Proofs.Json.Scanning
import River.Proofs.Source.Located

/-! Located nodes as they are shown. In one file the lines and columns can be read back from the
text of a stretch, and they tell the positions, so nodes are shown alike only if they have the same
span. -/
namespace River

/-- A number is cut in one way from what follows its digits. -/
theorem Text.cut_number {m n : Nat} {rest rest' : List Char}
    (same : m.repr.toList ++ rest = n.repr.toList ++ rest')
    (ends : ∀ c ∈ rest.head?, c.isDigit = false) (ends' : ∀ c ∈ rest'.head?, c.isDigit = false) :
    m = n ∧ rest = rest' := by
  have digits (k : Nat) : ∀ c ∈ Nat.toDigits 10 k, c.isDigit = true :=
    fun c => Nat.isDigit_of_mem_toDigits (by decide) (by decide)
  have split := congrArg Json.splitDigits same
  rw [Nat.toList_repr, Nat.toList_repr, Json.splitDigits_append (digits m) ends,
    Json.splitDigits_append (digits n) ends', Prod.mk.injEq] at split
  have value := congrArg (Nat.ofDigitChars 10 · 0) split.1
  simp only [Nat.ofDigitChars_ten_toDigits] at value
  exact ⟨value, split.2⟩

attribute [ext] Location Stretch

namespace Location

def fileText (file : String) : List Char := if file.isEmpty then [] else file.toList ++ [':']

def placeText (l : Location) : List Char := l.line.repr.toList ++ ':' :: l.column.repr.toList

theorem toList_text (l : Location) : l.text.toList = fileText l.file ++ l.placeText := by
  unfold text fileText placeText
  split <;> simp

def EndsPlace (rest : List Char) : Prop := rest = [] ∨ ∃ more, rest = '-' :: more

theorem cut_place {l k : Location} {rest rest' : List Char}
    (same : l.placeText ++ rest = k.placeText ++ rest') (ends : EndsPlace rest)
    (ends' : EndsPlace rest') : (l.line = k.line ∧ l.column = k.column) ∧ rest = rest' := by
  have other {rest : List Char} (ends : EndsPlace rest) : ∀ c ∈ rest.head?, c.isDigit = false := by
    rcases ends with rfl | ⟨more, rfl⟩ <;> simp
  simp only [placeText, List.append_assoc, List.cons_append] at same
  obtain ⟨lines, same⟩ := Text.cut_number same (by simp) (by simp)
  obtain ⟨columns, rest⟩ := Text.cut_number (List.cons.inj same).2 (other ends) (other ends')
  exact ⟨⟨lines, columns⟩, rest⟩

end Location

namespace Stretch

variable {s t : Stretch} {file : String}

/-- The end of a stretch is written if it is not the start. -/
def stopText (s : Stretch) : List Char := if s.start = s.stop then [] else '-' :: s.stop.placeText

theorem endsPlace_stopText (s : Stretch) : Location.EndsPlace s.stopText := by
  unfold stopText
  split
  · exact .inl rfl
  · exact .inr ⟨_, rfl⟩

theorem toList_text (s : Stretch) :
    s.text.toList = Location.fileText s.start.file ++ (s.start.placeText ++ s.stopText) := by
  unfold text stopText
  split
  · simp [Location.toList_text]
  · simp [Location.toList_text, Location.placeText]

/-- Only the text of a single location is that of its start. -/
theorem text_eq_start_iff : s.text = s.start.text ↔ s.start = s.stop := by
  rw [← String.toList_inj, toList_text, Location.toList_text, List.append_cancel_left_eq,
    List.append_right_eq_self, stopText]
  split <;> simp [*]

def Of (file : String) (s : Stretch) : Prop := s.start.file = file ∧ s.stop.file = file

theorem stop_of_stopText (whole : s.Of file) (whole' : t.Of file) (starts : s.start = t.start)
    (same : s.stopText = t.stopText) : s.stop = t.stop := by
  unfold stopText at same
  split at same
  · next one =>
    split at same
    · next one' => rw [← one, starts, one']
    · cases same
  · split at same
    · cases same
    · have places : s.stop.placeText ++ [] = t.stop.placeText ++ [] :=
        congrArg (· ++ []) (List.cons.inj same).2
      obtain ⟨⟨lines, columns⟩, -⟩ := Location.cut_place places (.inl rfl) (.inl rfl)
      exact Location.ext (whole.2.trans whole'.2.symm) lines columns

/-- Stretches of one file have texts of their own, whatever the file is called. -/
theorem text_injective (whole : s.Of file) (whole' : t.Of file) (same : s.text = t.text) :
    s = t := by
  have files := whole.1.trans whole'.1.symm
  have texts := congrArg String.toList same
  rw [toList_text, toList_text, files] at texts
  obtain ⟨⟨lines, columns⟩, stops⟩ := Location.cut_place (List.append_cancel_left texts)
    s.endsPlace_stopText t.endsPlace_stopText
  have starts : s.start = t.start := Location.ext files lines columns
  exact Stretch.ext starts (stop_of_stopText whole whole' starts stops)

end Stretch

namespace SourceFile

variable {f : SourceFile} {p q : Pos} {l : Location}

theorem file_of_locate (located : f.locate p = .ok l) : l.file = f.name := by
  cases p with
  | unplaced => cases located
  | byte offset bound =>
    rw [locate_byte] at located
    split at located
    · cases located
    · cases located
      rfl

theorem locate_injective (start : f.locate p = .ok l) (stop : f.locate q = .ok l) : p = q := by
  have irrefl : ¬l.Before l := fun before =>
    before.elim (Nat.lt_irrefl _) fun same => Nat.lt_irrefl _ same.2
  apply Pos.rank_injective
  rcases Nat.lt_trichotomy p.rank q.rank with earlier | same | later
  · exact absurd (locate_before earlier start stop) irrefl
  · exact same
  · exact absurd (locate_before later stop start) irrefl

end SourceFile

namespace Node

variable {f : SourceFile} {m n : Node} {s t : Stretch}

theorem ends_of_locate (located : n.locate f = .ok s) :
    f.locate n.first = .ok s.start ∧ f.locate n.last = .ok s.stop := by
  rcases locate_cases f n with ⟨-, l, k, both, ends⟩ | ⟨r, failed, -⟩
  · rw [located] at both
    cases both
    exact ends
  · rw [located] at failed
    cases failed

theorem locate_of (located : n.locate f = .ok s) : s.Of f.name :=
  (ends_of_locate located).imp f.file_of_locate f.file_of_locate

theorem span_of_locate (here : m.locate f = .ok s) (there : n.locate f = .ok s) :
    m.span = n.span := by
  obtain ⟨start, stop⟩ := ends_of_locate here
  obtain ⟨start', stop'⟩ := ends_of_locate there
  rw [span, span, f.locate_injective start start', f.locate_injective stop stop']

theorem locate_of_span (same : m.span = n.span) : m.locate f = n.locate f := by
  rw [locate, locate, same]

/-- A stretch of one location is that of a node with one position. -/
theorem start_eq_stop_iff (located : n.locate f = .ok s) :
    s.start = s.stop ↔ n.first = n.last := by
  obtain ⟨start, stop⟩ := ends_of_locate located
  constructor
  · intro same
    exact f.locate_injective start (same ▸ stop)
  · intro same
    rw [same, stop] at start
    exact (Except.ok.inj start).symm

/-- Nodes that have locations in a file are shown alike if and only if they have the same span,
whatever the file is called. The end is left out if it is where the start is. -/
theorem located_text (here : m.locate f = .ok s) (there : n.locate f = .ok t) :
    (s.text = t.text ↔ m.span = n.span) ∧
    (s.text = s.start.text ↔ m.first = m.last) ∧
    (m.first ≠ m.last →
      s.text = s.start.text ++ "-" ++ s.stop.line.repr ++ ":" ++ s.stop.column.repr) := by
  have single := start_eq_stop_iff here
  refine ⟨⟨fun same => ?_, fun same => ?_⟩, Stretch.text_eq_start_iff.trans single, fun two => ?_⟩
  · have stretches := Stretch.text_injective (locate_of here) (locate_of there) same
    exact span_of_locate here (stretches ▸ there)
  · rw [locate_of_span same, there] at here
    rw [Except.ok.inj here]
  · rw [Stretch.text, if_neg (mt single.1 two)]

/-- A file whose name looks like a line with columns. -/
def digitFile : SourceFile := .index "1:2-3" "ab\ncd"

theorem located_text_digitFile :
    ∃ s t, (ident ⟨"ab", .ofOffset 0⟩).locate digitFile = .ok s ∧
      (ident ⟨"a", .ofOffset 0⟩).locate digitFile = .ok t ∧ s.text ≠ t.text ∧
      s.text ≠ s.start.text ∧ t.text = t.start.text ∧
      (ident ⟨"ab", .ofOffset 0⟩).first ≠ (ident ⟨"ab", .ofOffset 0⟩).last ∧
      s.text = s.start.text ++ "-" ++ s.stop.line.repr ++ ":" ++ s.stop.column.repr := by
  have here : (ident ⟨"ab", .ofOffset 0⟩).locate digitFile =
      .ok ⟨⟨"1:2-3", 1, 1⟩, ⟨"1:2-3", 1, 2⟩⟩ := by decide
  have there : (ident ⟨"a", .ofOffset 0⟩).locate digitFile =
      .ok ⟨⟨"1:2-3", 1, 1⟩, ⟨"1:2-3", 1, 1⟩⟩ := by decide
  have two : (ident ⟨"ab", .ofOffset 0⟩).first ≠ (ident ⟨"ab", .ofOffset 0⟩).last := by decide
  obtain ⟨alike, short, long⟩ := located_text here there
  exact ⟨_, _, here, there, mt alike.1 (by decide), mt short.1 two,
    (located_text there here).2.1.2 (by decide), two, long two⟩

end Node
end River
