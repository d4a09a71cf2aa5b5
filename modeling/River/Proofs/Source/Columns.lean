import River.Proofs.Source.Table

/-! The offsets of a text and the lines and columns that it has stand in the same order and for each
other: a line has a column for each of its bytes, and the last line has one more. -/
namespace River.SourceFile

open Text (byteLength splitLines)

variable {name text : String} {offset i : Nat} {content : List Char}

theorem lineCount_splitLines (name text : String) :
    (index name text).lineCount = (splitLines text.toList).length := by
  rw [lineCount_index, Text.length_splitLines, Nat.add_comm]

/-- The bytes of the lines before a line. -/
def bytesBefore (text : String) (i : Nat) : Nat :=
  byteLength ((splitLines text.toList).take i).flatten

theorem lineStart_bytesBefore (inside : i < (splitLines text.toList).length) :
    (index name text).lineStarts[i]? = some (bytesBefore text i) := by
  have start := Text.starts_splitLines 0 text.toList inside
  rwa [Nat.zero_add] at start

theorem bytesBefore_succ (line : (splitLines text.toList)[i]? = some content) :
    bytesBefore text (i + 1) = bytesBefore text i + byteLength content := by
  rw [bytesBefore, List.take_add_one, line, Option.toList_some, List.flatten_append,
    Text.byteLength_append, List.flatten_singleton, bytesBefore]

theorem bytesBefore_length (text : String) :
    bytesBefore text (splitLines text.toList).length = text.utf8ByteSize := by
  rw [bytesBefore, List.take_length, Text.flatten_splitLines, Text.utf8ByteSize_eq]

theorem bytesBefore_le (text : String) (i : Nat) : bytesBefore text i ≤ text.utf8ByteSize := by
  have whole := List.take_append_drop i (splitLines text.toList)
  rw [Text.utf8ByteSize_eq, ← Text.flatten_splitLines text.toList, bytesBefore]
  conv_rhs => rw [← whole, List.flatten_append, Text.byteLength_append]
  exact Nat.le_add_right _ _

/-- How many columns a line has. The end of the text is a place, although no byte is there. -/
def columns (text : String) (i : Nat) (content : List Char) : Nat :=
  byteLength content + if i + 1 = (splitLines text.toList).length then 1 else 0

theorem columns_within (line : (splitLines text.toList)[i]? = some content)
    (onLine : offset < bytesBefore text i + columns text i content) :
    offset ≤ text.utf8ByteSize := by
  have next := bytesBefore_succ line
  have within := bytesBefore_le text (i + 1)
  rw [columns] at onLine
  split at onLine <;> omega

theorem laterLines_eq_iff (name : String) (line : (splitLines text.toList)[i]? = some content)
    (within : offset ≤ text.utf8ByteSize) : (index name text).laterLines offset = i ↔
      bytesBefore text i ≤ offset ∧ offset < bytesBefore text i + columns text i content := by
  obtain ⟨inside, -⟩ := List.getElem?_eq_some_iff.mp line
  have starts : bytesBefore text i ≤ offset ↔ i ≤ (index name text).laterLines offset :=
    le_iff_le_laterLines (lineStart_bytesBefore inside)
  have next := bytesBefore_succ line
  rw [columns]
  by_cases last : i + 1 = (splitLines text.toList).length
  · have most := (index name text).laterLines_lt_lineCount offset
    rw [← lineCount, lineCount_splitLines] at most
    rw [last, bytesBefore_length] at next
    rw [if_pos last, starts]
    omega
  · have ends : bytesBefore text (i + 1) ≤ offset ↔ i + 1 ≤ (index name text).laterLines offset :=
      le_iff_le_laterLines (lineStart_bytesBefore (Nat.lt_of_le_of_ne inside last))
    rw [if_neg last, starts, Nat.add_zero, ← next, ← Nat.not_le, ends]
    omega

theorem lineStart_of_laterLines (inside : i < (splitLines text.toList).length)
    (onLine : (index name text).laterLines offset = i) :
    (index name text).lineStart offset = bytesBefore text i := by
  have entry := lineStart_entry (index name text) offset
  rw [onLine, lineStart_bytesBefore inside] at entry
  exact (Option.some.inj entry).symm

theorem locate_ofOffset (name : String) (short : text.utf8ByteSize ≤ Pos.last)
    (within : offset ≤ text.utf8ByteSize) : (index name text).locate (.ofOffset offset) =
      .ok ⟨name, (index name text).laterLines offset + 1,
        offset - (index name text).lineStart offset + 1⟩ := by
  have bound := Nat.le_trans within short
  have exactly : Pos.ofOffset offset = .byte offset bound := by
    simp only [Pos.ofOffset, Nat.min_eq_left bound]
  rw [exactly, locate_within name bound within]

/-- The columns of a line are those at which there is an offset. -/
theorem locate_line_iff (name : String) (short : text.utf8ByteSize ≤ Pos.last)
    (line : (splitLines text.toList)[i]? = some content) (column : Nat) :
    (∃ offset ≤ text.utf8ByteSize,
      (index name text).locate (.ofOffset offset) = .ok ⟨name, i + 1, column⟩) ↔
    1 ≤ column ∧ column ≤ columns text i content := by
  obtain ⟨inside, -⟩ := List.getElem?_eq_some_iff.mp line
  constructor
  · rintro ⟨offset, within, located⟩
    rw [locate_ofOffset name short within] at located
    simp only [Except.ok.injEq, Location.mk.injEq, Nat.add_right_cancel_iff, true_and] at located
    obtain ⟨onLine, rfl⟩ := located
    have bounds := (laterLines_eq_iff name line within).mp onLine
    rw [lineStart_of_laterLines inside onLine]
    omega
  · rintro ⟨least, most⟩
    have onLine : bytesBefore text i + (column - 1) <
        bytesBefore text i + columns text i content := by omega
    have within := columns_within line onLine
    have lines := (laterLines_eq_iff name line within).mpr ⟨Nat.le_add_right _ _, onLine⟩
    refine ⟨_, within, ?_⟩
    rw [locate_ofOffset name short within, lines, lineStart_of_laterLines inside lines,
      Nat.add_sub_cancel_left, Nat.sub_add_cancel least]

/-- In a text that is no longer than offsets go, offsets and locations stand for each other: every
offset has a line and a column, greater offsets have later ones, and what is reached are exactly the
columns that the lines have. -/
theorem locate_one_to_one (name text : String) (short : text.utf8ByteSize ≤ Pos.last) :
    (∀ offset ≤ text.utf8ByteSize, ∃ line column,
      (index name text).locate (.ofOffset offset) = .ok ⟨name, line, column⟩) ∧
    (∀ m n l k, m < n → n ≤ text.utf8ByteSize → (index name text).locate (.ofOffset m) = .ok l →
      (index name text).locate (.ofOffset n) = .ok k → l.Before k) ∧
    ∀ line column, (∃ offset ≤ text.utf8ByteSize,
        (index name text).locate (.ofOffset offset) = .ok ⟨name, line, column⟩) ↔
      1 ≤ line ∧ line ≤ (index name text).lineCount ∧ 1 ≤ column ∧
      ∃ content, (splitLines text.toList)[line - 1]? = some content ∧
        column ≤ byteLength content + if line = (index name text).lineCount then 1 else 0 := by
  refine ⟨fun offset within => ⟨_, _, locate_ofOffset name short within⟩,
    fun m n l k lt within => ?_, fun line column => ?_⟩
  · apply locate_before
    have bound := Nat.le_trans within short
    simp only [Pos.lt_iff, Pos.ofOffset, Pos.rank_byte, Nat.min_eq_left bound]
    omega
  · rw [lineCount_splitLines]
    constructor
    · rintro ⟨offset, within, located⟩
      have found := located
      rw [locate_ofOffset name short within] at found
      cases found
      have inside := (index name text).laterLines_lt_lineCount offset
      rw [← lineCount, lineCount_splitLines] at inside
      have content := List.getElem?_eq_getElem inside
      have bounds := (locate_line_iff name short content _).mp ⟨offset, within, located⟩
      exact ⟨Nat.succ_pos _, inside, bounds.1, _, content, bounds.2⟩
    · rintro ⟨least, most, first, content, entry, last⟩
      obtain ⟨i, rfl⟩ := Nat.exists_eq_add_of_le' least
      exact (locate_line_iff name short entry column).mpr ⟨first, last⟩

theorem locate_emptyLine : "é\n\nb".utf8ByteSize ≤ Pos.last ∧
    (∃ offset ≤ "é\n\nb".utf8ByteSize,
      (index "a" "é\n\nb").locate (.ofOffset offset) = .ok ⟨"a", 2, 1⟩) ∧
    ¬∃ offset ≤ "é\n\nb".utf8ByteSize,
      (index "a" "é\n\nb").locate (.ofOffset offset) = .ok ⟨"a", 2, 2⟩ := by
  have short : "é\n\nb".utf8ByteSize ≤ Pos.last := by decide
  have count : (index "a" "é\n\nb").lineCount = 3 := by decide
  have empty : (splitLines "é\n\nb".toList)[2 - 1]? = some ['\n'] := by decide
  have reached := (locate_one_to_one "a" "é\n\nb" short).2.2
  refine ⟨short, (reached 2 1).mpr ⟨by decide, by rw [count]; decide, by decide, _, empty,
    by decide⟩, fun second => ?_⟩
  obtain ⟨-, -, -, content, entry, most⟩ := (reached 2 2).mp second
  rw [empty, Option.some.injEq] at entry
  rw [← entry, count] at most
  exact absurd most (by decide)

end River.SourceFile
