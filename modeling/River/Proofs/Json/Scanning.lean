import River.Json.Numeral
import River.Proofs.Json.Spelling

/-! The scanners take exactly one spelling from the start of a text and leave what follows it. -/
namespace River.Json

theorem skipBlanks_append (blank : Blank before) (text : List Char) :
    skipBlanks (before ++ text) = skipBlanks text :=
  List.dropWhile_append_of_pos blank

@[simp] theorem skipBlanks_cons (solid : isBlank c = false) (text : List Char) :
    skipBlanks (c :: text) = c :: text := by
  simp [skipBlanks, solid]

/-- Where the blanks end is determined by the text. -/
theorem blanks_cancel (blank : Blank before) (blank' : Blank after) (solid : isBlank c = false)
    (solid' : isBlank d = false) (same : before ++ c :: text = after ++ d :: text') :
    c :: text = d :: text' := by
  have skipped := congrArg skipBlanks same
  rwa [skipBlanks_append blank, skipBlanks_append blank', skipBlanks_cons solid,
    skipBlanks_cons solid'] at skipped

theorem skipBlanks_quote (text : List Char) : skipBlanks ('"' :: text) = '"' :: text :=
  skipBlanks_cons rfl text

theorem skipBlanks_brace (text : List Char) : skipBlanks ('\x7d' :: text) = '\x7d' :: text :=
  skipBlanks_cons rfl text

theorem skipBlanks_mark (mark : Mark sign text) (solid : isBlank sign = false) :
    ∃ after, Blank after ∧ ∀ rest, skipBlanks (text ++ rest) = sign :: (after ++ rest) := by
  obtain ⟨before, after, blank, blank', rfl⟩ := mark
  refine ⟨after, blank', fun rest => ?_⟩
  rw [List.append_assoc, skipBlanks_append blank, List.cons_append, skipBlanks_cons solid]

theorem hexValue?_digit (digit : HexDigit n c) : hexValue? c = some n := by
  have table : ∀ n < 16, hexValue? (hexDigit n) = some n ∧
      hexValue? (hexDigit n).toUpper = some n := by decide
  obtain ⟨small, rfl | rfl⟩ := digit
  · exact (table n small).1
  · exact (table n small).2

theorem hexUnit_word (word : HexWord n text) (rest : List Char) :
    hexUnit (text ++ rest) = .ok (n, rest) := by
  cases word with
  | digits a b c d =>
    simp only [hexUnit, List.cons_append, List.nil_append, hexValue?_digit a, hexValue?_digit b,
      hexValue?_digit c, hexValue?_digit d, Except.ok.injEq, Prod.mk.injEq, and_true]
    omega

theorem escapedChar_letter (member : (letter, c) ∈ letterEscapes) (rest : List Char) :
    escapedChar (letter :: rest) = .ok (c, rest) := by
  simp only [letterEscapes, List.mem_cons, Prod.mk.injEq, List.not_mem_nil, or_false] at member
  rcases member with h | h | h | h | h | h | h | h <;> obtain ⟨rfl, rfl⟩ := h <;> rfl

theorem not_surrogate (c : Char) :
    isLowSurrogate c.toNat = false ∧ isHighSurrogate c.toNat = false := by
  have valid : c.toNat.isValidChar := c.valid
  simp only [isLowSurrogate, isHighSurrogate, Nat.isValidChar] at valid ⊢
  constructor <;> simp <;> omega

theorem escapedChar_word (word : HexWord c.toNat text) (rest : List Char) :
    escapedChar ('u' :: (text ++ rest)) = .ok (c, rest) := by
  obtain ⟨low, high⟩ := not_surrogate c
  simp [escapedChar, escapedUnit, hexUnit_word word, bind, Except.bind, pure, Except.pure, low, high]

theorem escapedChar_surrogates (above : 0xffff < c.toNat)
    (first : HexWord (0xd800 + (c.toNat - 0x10000) / 0x400) high)
    (second : HexWord (0xdc00 + (c.toNat - 0x10000) % 0x400) low) (rest : List Char) :
    escapedChar ('u' :: (high ++ '\\' :: 'u' :: (low ++ rest))) = .ok (c, rest) := by
  have valid : c.toNat.isValidChar := c.valid
  have limit : c.toNat < 0x110000 := by rcases valid with h | h <;> omega
  have notLow : isLowSurrogate (0xd800 + (c.toNat - 0x10000) / 0x400) = false := by
    simp [isLowSurrogate]; omega
  have isHigh : isHighSurrogate (0xd800 + (c.toNat - 0x10000) / 0x400) = true := by
    simp [isHighSurrogate]; omega
  have isLow : isLowSurrogate (0xdc00 + (c.toNat - 0x10000) % 0x400) = true := by
    simp [isLowSurrogate]; omega
  have pair : surrogatePair (0xd800 + (c.toNat - 0x10000) / 0x400)
      (0xdc00 + (c.toNat - 0x10000) % 0x400) = c.toNat := by
    simp only [surrogatePair]; omega
  simp [escapedChar, escapedUnit, hexUnit_word first, hexUnit_word second, pairMark, bind,
    Except.bind, pure, Except.pure, notLow, isHigh, isLow, pair]

theorem SpellsString.length_lt (spells : SpellsString cs text rest) :
    cs.length + rest.length < text.length := by
  induction spells with
  | nil => simp
  | @cons c mark _ _ _ char _ ih =>
    have : 0 < mark.length := by cases char <;> simp
    simp only [List.length_cons, List.length_append]
    omega

theorem stringRest_spelled (spells : SpellsString cs text rest) (clock : List Char)
    (enough : cs.length < clock.length) : stringRest clock text = .ok (cs, rest) := by
  induction spells generalizing clock with
  | nil => cases clock <;> simp_all [stringRest]
  | @cons c mark cs text rest char _ ih =>
    obtain _ | ⟨tick, clock⟩ := clock
    · simp at enough
    have ih := ih clock (by simpa using enough)
    have escaped (esc : List Char) (reads : escapedChar (esc ++ text) = .ok (c, text)) :
        stringRest (tick :: clock) ('\\' :: (esc ++ text)) = .ok (c :: cs, rest) := by
      simp [stringRest, reads, ih, bind, Except.bind, pure, Except.pure]
    cases char with
    | raw control quote backslash =>
      simp [stringRest, quote, backslash, Nat.not_lt.mpr control, ih, bind, Except.bind, pure,
        Except.pure]
    | letter member => exact escaped _ (escapedChar_letter member text)
    | word word => exact escaped _ (escapedChar_word word text)
    | @surrogates high low above first second =>
      apply escaped ('u' :: (high ++ '\\' :: 'u' :: low))
      simpa using escapedChar_surrogates above first second text

theorem readString_spelled (spells : SpellsString cs text rest) :
    readString text = .ok (cs, rest) :=
  stringRest_spelled spells text (by have := spells.length_lt; omega)

theorem SpellsString.unique (left : SpellsString cs text rest)
    (right : SpellsString cs' text rest') : cs = cs' ∧ rest = rest' :=
  Prod.mk.inj (Except.ok.inj ((readString_spelled left).symm.trans (readString_spelled right)))

theorem head_toDigits (n : Nat) :
    ∃ c cs, Nat.toDigits 10 n = c :: cs ∧ c.isDigit = true ∧ (c = '0' → cs = []) := by
  induction n using Nat.strongRecOn with
  | _ n ih =>
    by_cases small : n < 10
    · refine ⟨n.digitChar, [], Nat.toDigits_of_lt_base small, ?_, fun _ => rfl⟩
      simp [Nat.isDigit_digitChar, small]
    · obtain ⟨c, cs, digits, digit, zero⟩ := ih (n / 10) (by omega)
      refine ⟨c, cs ++ [(n % 10).digitChar], ?_, digit, fun h => ?_⟩
      · rw [Nat.toDigits_of_base_le (by decide) (by omega), digits, List.cons_append]
      · -- a leading zero would make the quotient zero
        have none := zero h
        subst h none
        have value := Nat.ofDigitChars_ten_toDigits (n := n / 10)
        rw [digits, Nat.ofDigitChars_cons, Nat.ofDigitChars_nil] at value
        simp at value
        omega

theorem splitDigits_append (digits : ∀ c ∈ ds, c.isDigit = true)
    (ends : ∀ c ∈ rest.head?, c.isDigit = false) : splitDigits (ds ++ rest) = (ds, rest) := by
  have stop : rest.takeWhile Char.isDigit = [] ∧ rest.dropWhile Char.isDigit = rest := by
    cases rest with
    | nil => exact ⟨rfl, rfl⟩
    | cons c rest => simp [ends c rfl]
  rw [splitDigits, List.takeWhile_append_of_pos digits, List.dropWhile_append_of_pos digits,
    stop.1, stop.2, List.append_nil]

theorem wholePart_whole (whole : Whole ds) (ends : ∀ c ∈ rest.head?, c.isDigit = false) :
    wholePart atEnd (ds ++ rest) = .ok (ds, rest) := by
  obtain ⟨c, cs, rfl⟩ := List.exists_cons_of_ne_nil whole.some
  have split := splitDigits_append whole.all ends
  by_cases h : c = '0'
  · obtain rfl : cs = [] := (List.cons.inj (whole.zero (by simp [h]))).2
    subst h
    cases rest with
    | nil => rfl
    | cons d rest => simp [wholePart, ends d rfl]
  · rw [List.cons_append] at split ⊢
    unfold wholePart
    split
    · contradiction
    · next same => exact absurd (List.cons.inj same).1 h
    · next same =>
      obtain ⟨rfl, rfl⟩ := List.cons.inj same
      rw [if_pos (whole.all _ (by simp)), split]

theorem whole_toDigits (n : Nat) : Whole (Nat.toDigits 10 n) := by
  obtain ⟨c, cs, digits, _, zero⟩ := head_toDigits n
  refine ⟨⟨by simp [digits], fun d member => ?_⟩, fun first => ?_⟩
  · exact Nat.isDigit_of_mem_toDigits (by decide) (by decide) member
  · obtain rfl : c = '0' := by simpa [digits] using first
    rw [digits, zero rfl]

theorem fractionPart_absent (ends : EndsNumber rest) :
    fractionPart atEnd rest = .ok (none, rest) := by
  unfold fractionPart
  split
  · exact absurd rfl (ends _ rfl).2.1
  · rfl

theorem exponentPart_absent (ends : EndsNumber rest) :
    exponentPart atEnd rest = .ok (none, rest) := by
  unfold exponentPart
  split
  · exact absurd rfl (ends _ rfl).2.2.1
  · exact absurd rfl (ends _ rfl).2.2.2
  · rfl

theorem readNumber_digits (n : Nat) (fits : n < wordLimit) (ends : EndsNumber rest) :
    readNumber (Nat.toDigits 10 n ++ rest) = .ok (.natural n, rest) := by
  have unsigned : minus (Nat.toDigits 10 n ++ rest) = (false, Nat.toDigits 10 n ++ rest) := by
    obtain ⟨c, cs, digits, digit, _⟩ := head_toDigits n
    rw [digits, List.cons_append]
    unfold minus
    split
    · next h => exact absurd (List.cons.inj h).1 ((digit_starts_number digit).2 _ (by decide))
    · rfl
  simp [readNumber, numeral, unsigned, wholePart_whole (whole_toDigits n) fun d next =>
    (ends d next).1, fractionPart_absent ends,
    exponentPart_absent ends, Numeral.value, fits, bind, Except.bind, pure, Except.pure]

theorem SpellsString.wellformed (spells : SpellsString cs text rest) : StringText text rest := by
  induction spells with
  | nil => exact .nil
  | cons char _ ih =>
    cases char with
    | raw control quote backslash => exact .raw control quote backslash ih
    | letter member => exact .letter member ih
    | word word => exact .word word ih
    | surrogates _ first second =>
      rw [List.cons_append, List.cons_append, List.append_assoc]
      exact .word first (.word second ih)

theorem numberText_toDigits (n : Nat) : NumberText (Nat.toDigits 10 n) := by
  have parts : NumberText ([] ++ (Nat.toDigits 10 n ++ ([] ++ []))) :=
    .parts (by simp) (whole_toDigits n) .none .none
  simpa using parts

mutual

theorem Spells.wellformed : Spells d text rest → Wellformed text rest
  | .unread skipped => skipped
  | .null => .null
  | .isTrue => .isTrue
  | .isFalse => .isFalse
  | .number ends => .number (numberText_toDigits _) ends
  | .string chars => .string chars.wellformed
  | .array items => .array items.wellformed
  | .object members => .object members.wellformed

theorem SpellsItems.wellformed : SpellsItems first ds text rest → WellformedItems first text rest
  | .nil blank => .nil blank
  | .cons mark value more => .cons mark value.wellformed more.wellformed

theorem SpellsMembers.wellformed :
    SpellsMembers first ms text rest → WellformedMembers first text rest
  | .nil blank => .nil blank
  | .cons mark key sign value more =>
    .cons mark key.wellformed sign value.wellformed more.wellformed

end

/-- A document starts with a character of its own, which closes nothing. -/
theorem Spells.solid (spells : Spells d text rest) :
    ∃ c cs, text = c :: cs ∧ isBlank c = false ∧ c ≠ ']' :=
  spells.wellformed.solid

mutual

/-- Every document takes a character at least, and so does every item and every member. -/
theorem Spells.length_lt : Spells d text rest → rest.length < text.length
  | .unread skipped => skipped.length_lt
  | .null => by simp; omega
  | .isTrue => by simp; omega
  | .isFalse => by simp; omega
  | .number _ => by simp [Nat.length_toDigits_pos]
  | .string chars => by
    have := chars.length_lt
    simp only [List.length_cons]
    omega
  | .array items => by
    have := items.length_lt
    simp only [List.length_cons]
    omega
  | .object members => by
    have := members.length_lt
    simp only [List.length_cons]
    omega

theorem SpellsItems.length_lt :
    SpellsItems first ds text rest → ds.length + rest.length < text.length
  | .nil _ => by simp; omega
  | .cons _ value more => by
    have := value.length_lt
    have := more.length_lt
    simp only [List.length_cons, List.length_append]
    omega

theorem SpellsMembers.length_lt :
    SpellsMembers first ms text rest → ms.length + rest.length < text.length
  | .nil _ => by simp; omega
  | .cons _ key _ value more => by
    have := key.length_lt
    have := value.length_lt
    have := more.length_lt
    simp only [List.length_cons, List.length_append] at *
    omega

end

mutual

/-- A document is spelled with any value wherever it is not read. -/
theorem spells_filled (hole : Json) : ∀ {d : Doc} {text rest : List Char},
    Spells (d.filled hole).doc text rest → Spells d text rest
  | .unread, _, _, spells => .unread spells.wellformed
  | .null, _, _, spells => spells
  | .bool _, _, _, spells => spells
  | .number _, _, _, spells => spells
  | .string _, _, _, spells => spells
  | .array _, _, _, .array items => .array (spellsItems_filled hole items)
  | .object _, _, _, .object members => .object (spellsMembers_filled hole members)

theorem spellsItems_filled (hole : Json) : ∀ {ds : List Doc} {first : Bool} {text rest : List Char},
    SpellsItems first (docItems (Doc.filledItems hole ds)) text rest →
      SpellsItems first ds text rest
  | [], _, _, _, .nil blank => .nil blank
  | _ :: _, _, _, _, .cons mark value more =>
    .cons mark (spells_filled hole value) (spellsItems_filled hole more)

theorem spellsMembers_filled (hole : Json) :
    ∀ {ms : List (String × Doc)} {first : Bool} {text rest : List Char},
      SpellsMembers first (docMembers (Doc.filledMembers hole ms)) text rest →
        SpellsMembers first ms text rest
  | [], _, _, _, .nil blank => .nil blank
  | (_, _) :: _, _, _, _, .cons mark key sign value more =>
    .cons mark key sign (spells_filled hole value) (spellsMembers_filled hole more)

end

end River.Json
