import River.Proofs.Source.Table

/-! What a line table is known by. Its answers give back the name, the size of the text and the line
breaks in it, and nothing else of the text is in the table. -/
namespace River

/-- Two texts have the same size, and line breaks at the same bytes. -/
structure Text.SameBreaks (s t : String) : Prop where
  size : s.utf8ByteSize = t.utf8ByteSize
  breaks : ∀ i : Nat, (utf8 s.toList)[i]? = some 10 ↔ (utf8 t.toList)[i]? = some 10

namespace SourceFile

open Text (breaksBefore)

variable {a b s t : String} {k : Nat}

/-- What is answered for a position: its location, or a report. -/
def answer (f : SourceFile) (p : Pos) : Except Report Location :=
  (f.locate p).mapError Unlocated.report

theorem answer_ok_iff {f : SourceFile} : f.answer p = .ok l ↔ f.locate p = .ok l := by
  rw [answer]
  cases f.locate p with
  | error e => exact ⟨nofun, nofun⟩
  | ok l' => exact ⟨fun | rfl => rfl, fun | rfl => rfl⟩

theorem answer_within (name : String) (bound : k ≤ Pos.last) (within : k ≤ s.utf8ByteSize) :
    (index name s).answer (.byte k bound) =
      .ok ⟨name, breaksBefore (Text.utf8 s.toList) k + 1, k - (index name s).lineStart k + 1⟩ := by
  rw [answer_ok_iff, locate_within name bound within, laterLines_index]

section Answers

variable (same : ∀ p, (index a s).answer p = (index b t).answer p)
include same

theorem name_of_answers : a = b := by
  have first := same (.byte 0 (Nat.zero_le _))
  rw [answer_within a _ (Nat.zero_le _), answer_within b _ (Nat.zero_le _)] at first
  exact congrArg Location.file (Except.ok.inj first)

theorem size_le_of_answers (short : t.utf8ByteSize ≤ Pos.last) :
    t.utf8ByteSize ≤ s.utf8ByteSize := by
  have last := same (.byte t.utf8ByteSize short)
  rw [answer_within b short (Nat.le_refl _), answer_ok_iff] at last
  obtain ⟨offset, placed, within⟩ := locate_ok_iff.mp ⟨_, last⟩
  cases placed
  exact within

theorem breaksBefore_of_answers (short : s.utf8ByteSize ≤ Pos.last)
    (sizes : s.utf8ByteSize = t.utf8ByteSize) (within : k ≤ s.utf8ByteSize) :
    breaksBefore (Text.utf8 s.toList) k = breaksBefore (Text.utf8 t.toList) k := by
  have line := same (.byte k (Nat.le_trans within short))
  rw [answer_within a _ within, answer_within b _ (sizes ▸ within)] at line
  exact Nat.succ.inj (congrArg Location.line (Except.ok.inj line))

/-- Where the lines of the answers change, there are the breaks. -/
theorem sameBreaks_of_answers (short : s.utf8ByteSize ≤ Pos.last)
    (short' : t.utf8ByteSize ≤ Pos.last) : Text.SameBreaks s t := by
  have sizes : s.utf8ByteSize = t.utf8ByteSize :=
    Nat.le_antisymm (size_le_of_answers (fun p => (same p).symm) short)
      (size_le_of_answers same short')
  refine ⟨sizes, fun i => ?_⟩
  have length := Text.length_utf8_toList s
  have length' := Text.length_utf8_toList t
  by_cases inside : i < s.utf8ByteSize
  · rw [Text.break_iff_breaksBefore (by omega), Text.break_iff_breaksBefore (by omega),
      breaksBefore_of_answers same short sizes inside,
      breaksBefore_of_answers same short sizes (Nat.le_of_lt inside)]
  · rw [List.getElem?_eq_none (by omega), List.getElem?_eq_none (by omega)]

end Answers

/-- The table holds no more of a text than its size and its breaks. -/
theorem index_eq_of_sameBreaks (name : String) (same : Text.SameBreaks s t) :
    index name s = index name t := by
  rw [index, index, same.size, Text.startsAfterBreaks_ext same.breaks 0]

/-- Line tables are equal if they give the same answers for all positions. This is so if the names
are the same and the texts, whatever else is in them, have the same size and the same breaks. -/
theorem index_eq_iff (a b : String) (short : s.utf8ByteSize ≤ Pos.last)
    (short' : t.utf8ByteSize ≤ Pos.last) :
    (index a s = index b t ↔ ∀ p, (index a s).answer p = (index b t).answer p) ∧
    (index a s = index b t ↔ a = b ∧ Text.SameBreaks s t) := by
  have answers (same : index a s = index b t) (p : Pos) :
      (index a s).answer p = (index b t).answer p := congrArg (answer · p) same
  have parts (same : ∀ p, (index a s).answer p = (index b t).answer p) :
      a = b ∧ Text.SameBreaks s t :=
    ⟨name_of_answers same, sameBreaks_of_answers same short short'⟩
  have table : a = b ∧ Text.SameBreaks s t → index a s = index b t := by
    rintro ⟨rfl, same⟩
    exact index_eq_of_sameBreaks a same
  exact ⟨⟨answers, fun same => table (parts same)⟩, fun same => parts (answers same), table⟩

/-- Whether two bytes before a break are one character is not in the table. A break elsewhere shows
in the answers. -/
theorem index_eq_twoBytes :
    ("é\nb".utf8ByteSize ≤ Pos.last ∧ "ab\nc".utf8ByteSize ≤ Pos.last ∧
      index "f" "é\nb" = index "f" "ab\nc") ∧
    ¬∀ p, (index "f" "é\nb").answer p = (index "f" "a\nbc").answer p := by
  have size : "é\nb".utf8ByteSize ≤ Pos.last := by decide
  have size' : "ab\nc".utf8ByteSize ≤ Pos.last := by decide
  have size'' : "a\nbc".utf8ByteSize ≤ Pos.last := by decide
  refine ⟨⟨size, size', (index_eq_iff "f" "f" size size').2.mpr ⟨rfl, by decide, fun i => ?_⟩⟩,
    fun same => ?_⟩
  · have bytes : Text.utf8 "é\nb".toList = [0xc3, 0xa9, 10, 98] := by decide
    have bytes' : Text.utf8 "ab\nc".toList = [97, 98, 10, 99] := by decide
    rw [bytes, bytes']
    rcases i with _ | _ | _ | _ | i <;> simp
  · have tables := (index_eq_iff "f" "f" size size'').1.mpr same
    exact absurd tables (by decide)

end SourceFile
end River
