import River.Proofs.Source.Located
import River.Proofs.Text.Lines

/-! The line table of a text. Its entries start with zero and rise, so the lines up to an offset are
those before one place of the table; the line and the column are exact for every position. -/
namespace River.SourceFile

open Text (LineFrom breaksBefore)

variable {name text : String} {offset start : Nat}

theorem mem_lineStarts : start ∈ (index name text).lineStarts ↔
    start = 0 ∨ ∃ i, (Text.utf8 text.toList)[i]? = some 10 ∧ start = i + 1 := by
  have later : start ∈ (index name text).laterStarts ↔ _ := Text.mem_startsAfterBreaks
  simp only [Nat.zero_add] at later
  rw [lineStarts, List.mem_cons, later]

theorem lineStarts_sorted (name text : String) : (index name text).lineStarts.Pairwise (· < ·) := by
  refine .cons (fun start later => ?_) (Text.startsAfterBreaks_sorted 0 _)
  obtain ⟨i, -, rfl⟩ := Text.mem_startsAfterBreaks.mp later
  exact Nat.succ_pos _

theorem lineCount_index (name text : String) :
    (index name text).lineCount = 1 + text.toList.count '\n' := by
  rw [lineCount, lineStarts, List.length_cons, index, Text.length_startsAfterBreaks,
    Text.count_utf8, Nat.add_comm]

/-- The lines after the first one that start up to an offset are as many as the breaks before it. -/
theorem laterLines_index (name text : String) (offset : Nat) :
    (index name text).laterLines offset = breaksBefore (Text.utf8 text.toList) offset :=
  Text.length_takeWhile_starts 0 _ offset

/-- The line starts up to an offset stand before all others in the table. -/
theorem le_iff_le_laterLines (entry : (index name text).lineStarts[i]? = some start) :
    start ≤ offset ↔ i ≤ (index name text).laterLines offset := by
  rw [Text.le_iff_lt_takeWhile (lineStarts_sorted name text) entry, takeWhile_lineStarts,
    List.length_cons, ← laterLines, Nat.lt_succ_iff]

theorem lineStart_entry (f : SourceFile) (offset : Nat) :
    f.lineStarts[f.laterLines offset]? = some (f.lineStart offset) :=
  List.getElem?_eq_getElem (f.laterLines_lt_lineCount offset)

/-- The last line that starts up to an offset is the one that goes through it. -/
theorem lineFrom_lineStart (name text : String) (offset : Nat) :
    LineFrom (Text.utf8 text.toList) offset ((index name text).lineStart offset) := by
  have entry := (index name text).lineStart_entry offset
  refine ⟨(le_iff_le_laterLines entry).mpr (Nat.le_refl _),
    mem_lineStarts.mp (List.mem_of_getElem? entry), fun i after before broken => ?_⟩
  -- a break in between would start a line that the table has no later than this one
  obtain ⟨j, between⟩ := List.mem_iff_getElem?.mp
    (mem_lineStarts.mpr (.inr ⟨i, broken, rfl⟩) : i + 1 ∈ (index name text).lineStarts)
  have within : j ≤ (index name text).laterLines offset :=
    (le_iff_le_laterLines between).mp before
  have later : j ≤ (index name text).laterLines i :=
    Nat.le_trans within ((le_iff_le_laterLines entry).mp after)
  exact Nat.not_succ_le_self i ((le_iff_le_laterLines between).mpr later)

theorem offset?_eq_some {p : Pos} : p.offset? = some offset ↔ ∃ bound, p = .byte offset bound := by
  cases p with
  | unplaced => exact ⟨nofun, nofun⟩
  | byte offset bound => exact ⟨fun | rfl => ⟨bound, rfl⟩, fun ⟨_, same⟩ => same ▸ rfl⟩

theorem locate_within (name : String) (bound : offset ≤ Pos.last)
    (within : offset ≤ text.utf8ByteSize) : (index name text).locate (.byte offset bound) =
      .ok ⟨name, (index name text).laterLines offset + 1,
        offset - (index name text).lineStart offset + 1⟩ := by
  rw [locate_byte]
  exact if_neg (Nat.not_lt_of_le within)

theorem locate_past (name : String) (bound : offset ≤ Pos.last) (past : text.utf8ByteSize < offset) :
    (index name text).locate (.byte offset bound) =
      .error (.beyond offset name text.utf8ByteSize) := by
  rw [locate_byte]
  exact if_pos past

theorem locate_ok_iff {p : Pos} : (∃ l, (index name text).locate p = .ok l) ↔
    ∃ offset, p.offset? = some offset ∧ offset ≤ text.utf8ByteSize := by
  constructor
  · rintro ⟨l, located⟩
    cases p with
    | unplaced => cases located
    | byte offset bound =>
      refine ⟨offset, rfl, Nat.le_of_not_lt fun past => ?_⟩
      rw [locate_past name bound past] at located
      cases located
  · rintro ⟨offset, placed, within⟩
    obtain ⟨bound, rfl⟩ := offset?_eq_some.mp placed
    exact ⟨_, locate_within name bound within⟩

/-- Lines and columns are exact: a position in a text is on the line after as many breaks as stand
before it, and its column counts from the start of that line. All other positions are rejected. -/
theorem locate_exact (name text : String) :
    (∀ p, (∃ l, (index name text).locate p = .ok l) ↔
      ∃ offset, p.offset? = some offset ∧ offset ≤ text.utf8ByteSize) ∧
    (∀ p offset, p.offset? = some offset → offset ≤ text.utf8ByteSize → ∃ line start,
      (index name text).locate p = .ok ⟨name, line, offset - start + 1⟩ ∧
      line = breaksBefore (Text.utf8 text.toList) offset + 1 ∧
      LineFrom (Text.utf8 text.toList) offset start ∧
      (index name text).lineStarts[line - 1]? = some start ∧
      ∀ i s, (index name text).lineStarts[i]? = some s → (s ≤ offset ↔ i < line)) ∧
    (∃ e, (index name text).locate .unplaced = .error e ∧ e.report.fault = .invalidPosition ∧
      e.report.message = "node has no position") ∧
    ∀ p offset, p.offset? = some offset → text.utf8ByteSize < offset → ∃ e,
      (index name text).locate p = .error e ∧ e.report.fault = .invalidPosition ∧
      e.report.message = "offset " ++ offset.repr ++ " is out of range" := by
  refine ⟨fun p => locate_ok_iff, fun p offset placed within => ?_, ⟨_, rfl, rfl, rfl⟩,
    fun p offset placed past => ?_⟩
  · obtain ⟨bound, rfl⟩ := offset?_eq_some.mp placed
    have lines := laterLines_index name text offset
    refine ⟨_, _, locate_within name bound within, congrArg (· + 1) lines,
      lineFrom_lineStart name text offset, lineStart_entry _ offset, fun i s entry => ?_⟩
    exact (le_iff_le_laterLines entry).trans Nat.lt_succ_iff.symm
  · obtain ⟨bound, rfl⟩ := offset?_eq_some.mp placed
    exact ⟨_, locate_past name bound past, rfl, rfl⟩

/-- Just before the second of two breaks in a row, after a character of two bytes. -/
theorem locate_secondBreak :
    ((Pos.ofOffset 3).offset? = some 3 ∧ 3 ≤ "é\n\n".utf8ByteSize) ∧
    (index "a" "é\n\n").locate (.ofOffset 3) = .ok ⟨"a", 2, 1⟩ := by
  have within : 3 ≤ "é\n\n".utf8ByteSize := by decide
  obtain ⟨line, start, located, lines, line_from, -⟩ :=
    (locate_exact "a" "é\n\n").2.1 (.ofOffset 3) 3 rfl within
  have opened : LineFrom (Text.utf8 "é\n\n".toList) 3 3 :=
    ⟨Nat.le_refl 3, .inr ⟨2, by decide, rfl⟩, fun i after before => absurd before (by omega)⟩
  have two : line = 2 := by rw [lines]; decide
  obtain rfl := line_from.unique opened
  exact ⟨⟨rfl, within⟩, two ▸ located⟩

end River.SourceFile
