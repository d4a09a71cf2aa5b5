import Mathlib.Tactic.SplitIfs
import River.Text.Quoted

/-! A quoted text stands on one line and can be read back character by character. -/
namespace River.Text

def quoteLetters : List (Char × Char) :=
  [('0', '\x00'), ('t', '\t'), ('n', '\n'), ('r', '\r'), ('"', '"'), ('\\', '\\')]

/-- A character is written by a letter, by its code point or as it is. -/
theorem quoteChar_cases (c : Char) :
    (∃ letter, (letter, c) ∈ quoteLetters ∧ quoteChar c = ['\\', letter]) ∨
    quoteChar c = codePoint c ∨
    quoteChar c = [c] ∧ isPrintable c = true ∧ c ≠ '"' ∧ c ≠ '\\' := by
  by_cases letter : ∃ l, (l, c) ∈ quoteLetters
  · left
    obtain ⟨l, member⟩ := letter
    refine ⟨l, member, ?_⟩
    simp only [quoteLetters, List.mem_cons, Prod.mk.injEq, List.not_mem_nil, or_false] at member
    rcases member with h | h | h | h | h | h <;> obtain ⟨rfl, rfl⟩ := h <;> rfl
  · right
    simp only [quoteLetters, List.mem_cons, Prod.mk.injEq, List.not_mem_nil, or_false,
      exists_or, exists_eq_left, not_or] at letter
    obtain ⟨zero, tab, newline, ret, quote, backslash⟩ := letter
    by_cases hidden : isGraphemeExtend c || !isPrintable c
    · left
      simp [quoteChar, zero, tab, newline, ret, quote, backslash, hidden]
    · right
      have shown : isGraphemeExtend c = false ∧ isPrintable c = true := by simpa using hidden
      simp [quoteChar, zero, tab, newline, ret, quote, backslash, shown]

def hexDigitValue (c : Char) : Nat :=
  if c.isDigit then c.toNat - '0'.toNat else c.toNat - 'a'.toNat + 10

def readHex (digits : List Char) : Nat :=
  digits.foldl (fun n c => n * 16 + hexDigitValue c) 0

theorem hexDigitValue_digitChar : ∀ d < 16, hexDigitValue (Nat.digitChar d) = d := by decide

theorem readHex_toDigits (n : Nat) : readHex (Nat.toDigits 16 n) = n := by
  induction n using Nat.strongRecOn with
  | _ n ih =>
    by_cases small : n < 16
    · simp [Nat.toDigits_of_lt_base small, readHex, hexDigitValue_digitChar n small]
    · have lead := ih (n / 16) (by omega)
      have final := hexDigitValue_digitChar (n % 16) (Nat.mod_lt n (by decide))
      rw [readHex] at lead
      rw [Nat.toDigits_of_base_le (by decide) (by omega), readHex, List.foldl_append, lead]
      simp only [List.foldl_cons, List.foldl_nil, final]
      omega

theorem mem_hexDigits (member : c ∈ Nat.toDigits 16 n) : ∃ d < 16, c = Nat.digitChar d := by
  induction n using Nat.strongRecOn with
  | _ n ih =>
    by_cases small : n < 16
    · rw [Nat.toDigits_of_lt_base small] at member
      exact ⟨n, small, List.mem_singleton.mp member⟩
    · rw [Nat.toDigits_of_base_le (by decide) (by omega)] at member
      rcases List.mem_append.mp member with lead | final
      · exact ih (n / 16) (by omega) lead
      · exact ⟨n % 16, Nat.mod_lt n (by decide), List.mem_singleton.mp final⟩

theorem hexDigit_apart (member : c ∈ Nat.toDigits 16 n) : 0x20 ≤ c.toNat ∧ c ≠ '\x7d' := by
  have digits : ∀ d < 16, 0x20 ≤ (Nat.digitChar d).toNat ∧ Nat.digitChar d ≠ '\x7d' := by decide
  obtain ⟨d, small, rfl⟩ := mem_hexDigits member
  exact digits d small

/-- The character that stands at the start of a quoted text, and what follows it. -/
def readQuoted : List Char → Option (Char × List Char)
  | [] => none
  | '\\' :: '0' :: rest => some ('\x00', rest)
  | '\\' :: 't' :: rest => some ('\t', rest)
  | '\\' :: 'n' :: rest => some ('\n', rest)
  | '\\' :: 'r' :: rest => some ('\r', rest)
  | '\\' :: '"' :: rest => some ('"', rest)
  | '\\' :: '\\' :: rest => some ('\\', rest)
  | '\\' :: 'u' :: '\x7b' :: rest =>
    some (Char.ofNat (readHex (rest.takeWhile (· != '\x7d'))), (rest.dropWhile (· != '\x7d')).drop 1)
  | c :: rest => some (c, rest)

theorem readQuoted_codePoint (c : Char) (rest : List Char) :
    readQuoted (codePoint c ++ rest) = some (c, rest) := by
  have digits : ∀ d ∈ Nat.toDigits 16 c.toNat, (d != '\x7d') = true := fun d member => by
    simpa using (hexDigit_apart member).2
  simp [codePoint, readQuoted, List.takeWhile_append_of_pos digits,
    List.dropWhile_append_of_pos digits, readHex_toDigits]

theorem readQuoted_raw (plain : c ≠ '\\') (rest : List Char) :
    readQuoted (c :: rest) = some (c, rest) := by
  unfold readQuoted
  split <;> simp_all

theorem readQuoted_quoteChar (c : Char) (rest : List Char) :
    readQuoted (quoteChar c ++ rest) = some (c, rest) := by
  rcases quoteChar_cases c with ⟨letter, member, same⟩ | same | ⟨same, -, -, plain⟩ <;> rw [same]
  · simp only [quoteLetters, List.mem_cons, Prod.mk.injEq, List.not_mem_nil, or_false] at member
    rcases member with h | h | h | h | h | h <;> obtain ⟨rfl, rfl⟩ := h <;> rfl
  · exact readQuoted_codePoint c rest
  · exact readQuoted_raw plain rest

/-- No character is written as a closing quote. -/
theorem quoteChar_opens (c : Char) (rest tail : List Char) : quoteChar c ++ rest ≠ '"' :: tail := by
  rcases quoteChar_cases c with ⟨letter, -, same⟩ | same | ⟨same, -, quote, -⟩ <;> rw [same]
  · simp
  · simp [codePoint]
  · simp [quote]

theorem quoteChars_injective {s t : List Char}
    (same : s.flatMap quoteChar ++ ['"'] = t.flatMap quoteChar ++ ['"']) : s = t := by
  induction s generalizing t with
  | nil =>
    cases t with
    | nil => rfl
    | cons d t =>
      rw [List.flatMap_cons, List.append_assoc] at same
      exact absurd same.symm (quoteChar_opens d _ [])
  | cons c s ih =>
    cases t with
    | nil =>
      rw [List.flatMap_cons, List.append_assoc] at same
      exact absurd same (quoteChar_opens c _ [])
    | cons d t =>
      simp only [List.flatMap_cons, List.append_assoc] at same
      have first := congrArg readQuoted same
      simp only [readQuoted_quoteChar, Option.some.injEq, Prod.mk.injEq] at first
      rw [first.1, ih first.2]

theorem quoted_injective {s t : String} (same : quoted s = quoted t) : s = t := by
  have inside := List.cons.inj (String.ofList_injective same)
  exact String.toList_injective (quoteChars_injective inside.2)

/-- A text without control characters, so one that breaks no line and paints nothing. -/
def Visible (text : List Char) : Prop := ∀ c ∈ text, 0x20 ≤ c.toNat

instance (text : List Char) : Decidable (Visible text) :=
  List.decidableBAll (fun c : Char => 0x20 ≤ c.toNat) text

theorem Visible.notMem (visible : Visible text) (control : c.toNat < 0x20) : c ∉ text :=
  fun member => Nat.not_le.mpr control (visible c member)

theorem Visible.append (left : Visible s) (right : Visible t) : Visible (s ++ t) :=
  List.forall_mem_append.mpr ⟨left, right⟩

theorem visible_toDigits (n : Nat) : Visible (Nat.toDigits 10 n) := fun _ member =>
  Nat.le_trans (by decide) (Char.isDigit_iff_toNat.mp
    (Nat.isDigit_of_mem_toDigits (by decide) (by decide) member)).1

theorem visible_of_isPrintable (printable : isPrintable c = true) : 0x20 ≤ c.toNat := by
  have hidden : (0x0, 0x1f) ∈ unprintableRanges := List.mem_cons_self
  simp only [isPrintable, inRanges, Bool.not_eq_true', List.any_eq_false] at printable
  have outside := printable _ hidden
  simp at outside
  omega

theorem visible_quoteChar (c : Char) : Visible (quoteChar c) := by
  rcases quoteChar_cases c with ⟨letter, member, same⟩ | same | ⟨same, printable, -⟩ <;> rw [same]
  · have letters : ∀ l ∈ quoteLetters.map Prod.fst, Visible ['\\', l] := by
      simp [quoteLetters, Visible]
    exact letters letter (List.mem_map_of_mem member)
  · have digits : Visible (Nat.toDigits 16 c.toNat) := fun _ member => (hexDigit_apart member).1
    exact .append (.append (by decide) digits) (by decide)
  · simpa [Visible] using visible_of_isPrintable printable

theorem visible_quoted (s : String) : Visible (quoted s).toList := by
  rw [quoted, String.toList_ofList]
  refine .append (List.forall_mem_cons.mpr ⟨by decide, fun c member => ?_⟩) (by decide)
  obtain ⟨d, -, written⟩ := List.mem_flatMap.mp member
  exact visible_quoteChar d c written

end River.Text
