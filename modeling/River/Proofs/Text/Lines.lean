import Mathlib.Data.List.Sort
import River.Text.Lines

/-! Where lines start. The line of a byte goes back to the last line break before it; the table of
the starts after breaks is sorted, so its part up to an offset counts the breaks before that. -/
namespace River.Text

/-- The line that goes through index `k` starts at `start`: with the text or just after a line
break, and no other one stands between. -/
structure LineFrom (bytes : List UInt8) (k start : Nat) : Prop where
  le : start ≤ k
  opens : start = 0 ∨ ∃ i, bytes[i]? = some 10 ∧ start = i + 1
  unbroken : ∀ i, start ≤ i → i < k → bytes[i]? ≠ some 10

theorem LineFrom.not_lt (left : LineFrom bytes k start) (right : LineFrom bytes k start') :
    ¬start < start' := by
  intro earlier
  rcases right.opens with rfl | ⟨i, broken, rfl⟩
  · exact absurd earlier (Nat.not_lt_zero start)
  · exact left.unbroken i (Nat.le_of_lt_succ earlier) right.le broken

theorem LineFrom.unique (left : LineFrom bytes k start) (right : LineFrom bytes k start') :
    start = start' :=
  Nat.le_antisymm (Nat.le_of_not_lt (right.not_lt left)) (Nat.le_of_not_lt (left.not_lt right))

theorem sinceBreak_succ (byte : bytes[k]? = some b) :
    sinceBreak bytes (k + 1) = if b = 10 then 0 else sinceBreak bytes k + 1 := by
  have last : bytes.take (k + 1) = bytes.take k ++ [b] := by
    rw [List.take_add_one, byte, Option.toList_some]
  rw [sinceBreak, last, List.reverse_append, List.reverse_singleton, List.singleton_append,
    List.takeWhile_cons]
  by_cases broken : b = 10
  · simp [broken]
  · simp [broken, sinceBreak]

theorem lineFrom_sinceBreak (inside : k ≤ bytes.length) :
    ∃ start, LineFrom bytes k start ∧ sinceBreak bytes k = k - start := by
  induction k with
  | zero => exact ⟨0, ⟨Nat.le_refl 0, .inl rfl, fun i _ before => absurd before (Nat.not_lt_zero i)⟩,
      rfl⟩
  | succ k ih =>
    have byte : bytes[k]? = some bytes[k] := List.getElem?_eq_getElem inside
    rw [sinceBreak_succ byte]
    by_cases broken : bytes[k] = 10
    · rw [if_pos broken]
      refine ⟨k + 1, ⟨Nat.le_refl _, .inr ⟨k, broken ▸ byte, rfl⟩, fun i after before => ?_⟩, ?_⟩
      · exact absurd before (Nat.not_lt_of_le after)
      · exact (Nat.sub_self _).symm
    · rw [if_neg broken]
      obtain ⟨start, line, since⟩ := ih (Nat.le_of_succ_le inside)
      have le := line.le
      refine ⟨start, ⟨Nat.le_succ_of_le le, line.opens, fun i after before => ?_⟩, by omega⟩
      rcases Nat.lt_or_eq_of_le (Nat.le_of_lt_succ before) with before | rfl
      · exact line.unbroken i after before
      · rw [byte]
        exact fun same => broken (Option.some.inj same)

theorem ofNat_ne_break (least : 0x80 ≤ n) (most : n < 0x100) : UInt8.ofNat n ≠ 10 := by
  intro same
  have value := congrArg UInt8.toNat same
  rw [UInt8.toNat_ofNat_of_lt' most] at value
  have ten : (10 : UInt8).toNat = 10 := rfl
  omega

/-- All bytes of a character that takes several are too great for a line break. -/
theorem count_utf8EncodeChar (c : Char) :
    (String.utf8EncodeChar c).count 10 = if c = '\n' then 1 else 0 := by
  have number : c = '\n' ↔ c.val.toNat = 10 :=
    ⟨fun same => same ▸ rfl, fun same => Char.ext (UInt32.toNat_inj.mp same)⟩
  have great (n : Nat) (least : 0x80 ≤ n) (most : n < 0x100) : ¬10 = UInt8.ofNat n :=
    fun same => ofNat_ne_break least most same.symm
  rw [String.utf8EncodeChar]
  split
  · next single =>
    have byte : UInt8.ofNat c.val.toNat = 10 ↔ c.val.toNat = 10 := by
      rw [← UInt8.toNat_inj, UInt8.toNat_ofNat_of_lt' (Nat.lt_of_le_of_lt single (by decide))]
      rfl
    simp only [List.count_singleton, number, beq_iff_eq, byte]
  · have other : ¬c = '\n' := by rw [number]; omega
    rw [if_neg other, List.count_eq_zero]
    split_ifs <;>
      simp (disch := omega) only [List.mem_cons, List.not_mem_nil, great, or_self, not_false_eq_true]

theorem count_utf8 (text : List Char) : (utf8 text).count 10 = text.count '\n' := by
  induction text with
  | nil => rfl
  | cons c text ih =>
    rw [utf8_cons, List.count_append, ih, count_utf8EncodeChar, List.count_cons, Nat.add_comm]
    simp only [beq_iff_eq]

theorem mem_startsAfterBreaks {index : Nat} {bytes : List UInt8} :
    start ∈ startsAfterBreaks index bytes ↔ ∃ i, bytes[i]? = some 10 ∧ start = index + i + 1 := by
  induction bytes generalizing index with
  | nil => simp [startsAfterBreaks]
  | cons b bytes ih =>
    have shift (i : Nat) : index + (i + 1) + 1 = index + 1 + i + 1 := by omega
    rw [← Nat.or_exists_add_one]
    simp only [List.getElem?_cons_zero, List.getElem?_cons_succ, Option.some.injEq, shift, ← ih]
    rw [startsAfterBreaks]
    split <;> simp [*]

theorem startsAfterBreaks_sorted (index : Nat) (bytes : List UInt8) :
    (startsAfterBreaks index bytes).Pairwise (· < ·) := by
  induction bytes generalizing index with
  | nil => exact .nil
  | cons b bytes ih =>
    rw [startsAfterBreaks]
    split
    · refine .cons (fun start later => ?_) (ih (index + 1))
      obtain ⟨i, -, rfl⟩ := mem_startsAfterBreaks.mp later
      omega
    · exact ih (index + 1)

/-- Texts with breaks at the same bytes have lines with the same starts. -/
theorem startsAfterBreaks_ext {bytes bytes' : List UInt8}
    (same : ∀ i : Nat, bytes[i]? = some 10 ↔ bytes'[i]? = some 10) (index : Nat) :
    startsAfterBreaks index bytes = startsAfterBreaks index bytes' := by
  refine (startsAfterBreaks_sorted index bytes).eq_of_mem_iff
    (startsAfterBreaks_sorted index bytes') fun start => ?_
  simp only [mem_startsAfterBreaks, same]

theorem break_iff_breaksBefore {bytes : List UInt8} (inside : i < bytes.length) :
    bytes[i]? = some 10 ↔ breaksBefore bytes (i + 1) = breaksBefore bytes i + 1 := by
  have byte : bytes[i]? = some bytes[i] := List.getElem?_eq_getElem inside
  rw [breaksBefore, List.take_add_one, byte, Option.toList_some, List.count_append, ← breaksBefore,
    List.count_singleton, Option.some.injEq]
  by_cases broken : bytes[i] = 10 <;> simp [broken]

/-- As many lines start after a break up to an offset as there are breaks before it. -/
theorem length_takeWhile_starts (index : Nat) (bytes : List UInt8) (offset : Nat) :
    ((startsAfterBreaks index bytes).takeWhile (· ≤ offset)).length =
      breaksBefore bytes (offset - index) := by
  induction bytes generalizing index with
  | nil => simp [startsAfterBreaks, breaksBefore]
  | cons b bytes ih =>
    have later := ih (index + 1)
    by_cases before : index < offset
    · have split : offset - index = offset - (index + 1) + 1 := by omega
      rw [split, breaksBefore, List.take_succ_cons, List.count_cons, ← breaksBefore, ← later]
      by_cases broken : b = 10 <;> simp [startsAfterBreaks, broken, Nat.succ_le_of_lt before]
    · have none : offset - index = 0 := by omega
      have none' : offset - (index + 1) = 0 := by omega
      rw [none'] at later
      rw [none]
      by_cases broken : b = 10
      · have past : ¬index + 1 ≤ offset := before
        simp [startsAfterBreaks, broken, past, breaksBefore]
      · simpa [startsAfterBreaks, broken, breaksBefore] using later

/-- In a sorted list the entries up to a bound stand before the first greater one. -/
theorem le_iff_lt_takeWhile {l : List Nat} (sorted : l.Pairwise (· < ·)) (entry : l[i]? = some s) :
    s ≤ bound ↔ i < (l.takeWhile (· ≤ bound)).length := by
  induction l generalizing i with
  | nil => cases entry
  | cons a l ih =>
    obtain ⟨least, sorted⟩ := List.pairwise_cons.mp sorted
    cases i with
    | zero =>
      cases entry
      by_cases within : s ≤ bound <;> simp [within]
    | succ i =>
      have greater := least s (List.mem_of_getElem? entry)
      by_cases within : a ≤ bound
      · simpa [within] using ih sorted entry
      · have past : ¬s ≤ bound := by omega
        simp [within, past]

theorem splitLines_solid (text : List Char) : ∃ line more, splitLines text = line :: more := by
  induction text with
  | nil => exact ⟨[], [], rfl⟩
  | cons c text ih =>
    obtain ⟨line, more, lines⟩ := ih
    rw [splitLines, lines]
    split
    · exact ⟨[c], line :: more, rfl⟩
    · exact ⟨c :: line, more, rfl⟩

theorem flatten_splitLines (text : List Char) : (splitLines text).flatten = text := by
  induction text with
  | nil => rfl
  | cons c text ih =>
    obtain ⟨line, more, lines⟩ := splitLines_solid text
    rw [lines, List.flatten_cons] at ih
    rw [splitLines, lines]
    split
    · rw [List.flatten_cons, List.flatten_cons, ih, List.singleton_append]
    · rw [List.modifyHead_cons, List.flatten_cons, List.cons_append, ih]

theorem starts_utf8EncodeChar (other : c ≠ '\n') (index : Nat) (bytes : List UInt8) :
    startsAfterBreaks index (String.utf8EncodeChar c ++ bytes) =
      startsAfterBreaks (index + c.utf8Size) bytes := by
  have unbroken : 10 ∉ String.utf8EncodeChar c := by
    rw [← List.count_eq_zero, count_utf8EncodeChar, if_neg other]
  have skip (l : List UInt8) (unbroken : 10 ∉ l) (index : Nat) :
      startsAfterBreaks index (l ++ bytes) = startsAfterBreaks (index + l.length) bytes := by
    induction l generalizing index with
    | nil => rfl
    | cons b l ih =>
      rw [List.mem_cons, not_or] at unbroken
      rw [List.cons_append, startsAfterBreaks, if_neg (Ne.symm unbroken.1), ih unbroken.2,
        List.length_cons, Nat.add_right_comm, Nat.add_assoc]
  rw [skip _ unbroken, String.length_utf8EncodeChar]

theorem length_splitLines (text : List Char) :
    (splitLines text).length = text.count '\n' + 1 := by
  induction text with
  | nil => rfl
  | cons c text ih =>
    rw [splitLines]
    by_cases broken : c = '\n' <;> simp [broken, ih]

theorem starts_splitLines (index : Nat) (text : List Char) (inside : i < (splitLines text).length) :
    (index :: startsAfterBreaks index (utf8 text))[i]? =
      some (index + byteLength ((splitLines text).take i).flatten) := by
  induction text generalizing index i with
  | nil =>
    cases Nat.lt_one_iff.mp inside
    rfl
  | cons c text ih =>
    cases i with
    | zero => rfl
    | succ i =>
      rw [List.getElem?_cons_succ, utf8_cons]
      by_cases broken : c = '\n'
      · have one : String.utf8EncodeChar '\n' = [10] := by decide
        have size : byteLength ['\n'] = 1 := by decide
        rw [splitLines, if_pos broken, List.length_cons] at inside
        rw [broken, one, List.singleton_append, startsAfterBreaks, if_pos rfl,
          ih (index + 1) (Nat.lt_of_succ_lt_succ inside), splitLines, if_pos rfl,
          List.take_succ_cons, List.flatten_cons, byteLength_append, size, Nat.add_assoc]
      · obtain ⟨line, more, lines⟩ := splitLines_solid text
        rw [splitLines, if_neg broken, List.length_modifyHead] at inside
        have later := ih (index + c.utf8Size) inside
        rw [List.getElem?_cons_succ, lines, List.take_succ_cons, List.flatten_cons] at later
        rw [starts_utf8EncodeChar broken, later, splitLines, if_neg broken, lines,
          List.modifyHead_cons, List.take_succ_cons, List.flatten_cons, List.cons_append,
          byteLength, Nat.add_assoc]

end River.Text
