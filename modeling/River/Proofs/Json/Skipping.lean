import River.Json.Skip
import River.Proofs.Json.Scanning

/-! What nobody asks for is skipped to its end: a well-formed value is taken as a whole, however
deep its brackets are nested, and nothing after it. -/
namespace River.Json

theorem escapedUnit_letter (member : (letter, c) ∈ letterEscapes) (rest : List Char) :
    escapedUnit (letter :: rest) = .ok (c.toNat, rest) := by
  simp only [letterEscapes, List.mem_cons, Prod.mk.injEq, List.not_mem_nil, or_false] at member
  rcases member with h | h | h | h | h | h | h | h <;> obtain ⟨rfl, rfl⟩ := h <;> rfl

theorem clock_runs {clock text rest : List Char} (longer : rest.length < text.length)
    (enough : text.length ≤ clock.length + rest.length) : ∃ tick more, clock = tick :: more := by
  refine List.exists_cons_of_length_pos ?_
  omega

/-- Each step of the clock takes a character or more. -/
theorem skipStringRest_text (string : StringText text rest) (clock : List Char)
    (enough : text.length ≤ clock.length + rest.length) :
    skipStringRest clock text = .ok rest := by
  have longer := string.length_lt
  induction string generalizing clock with
  | nil =>
    obtain ⟨tick, clock, rfl⟩ := clock_runs longer enough
    simp [skipStringRest]
  | raw control quote backslash more ih =>
    obtain ⟨tick, clock, rfl⟩ := clock_runs longer enough
    simp only [List.length_cons] at enough
    simp only [skipStringRest, if_neg quote, if_neg backslash, if_neg (Nat.not_lt.mpr control)]
    exact ih clock (by omega) more.length_lt
  | letter member more ih =>
    obtain ⟨tick, clock, rfl⟩ := clock_runs longer enough
    simp only [List.length_cons] at enough
    simp only [skipStringRest, escapedUnit_letter member]
    exact ih clock (by omega) more.length_lt
  | word word more ih =>
    obtain ⟨tick, clock, rfl⟩ := clock_runs longer enough
    simp only [List.length_cons, List.length_append] at enough
    simp only [skipStringRest, escapedUnit, hexUnit_word word]
    exact ih clock (by omega) more.length_lt

theorem skipString_text (string : StringText text rest) : skipString text = .ok rest :=
  skipStringRest_text string text (Nat.le_add_right _ _)

theorem minus_sign (signed : sign ∈ [[], ['-']]) (digits : Digits ds) (more : List Char) :
    ∃ negative, minus (sign ++ (ds ++ more)) = (negative, ds ++ more) := by
  obtain ⟨d, ds, rfl⟩ := List.exists_cons_of_ne_nil digits.some
  simp only [List.mem_cons, List.not_mem_nil, or_false] at signed
  rcases signed with rfl | rfl
  · have apart := (digit_starts_number (digits.all d (by simp))).2 '-' (by decide)
    refine ⟨false, ?_⟩
    unfold minus
    split
    · next same => exact absurd (List.cons.inj same).1 apart
    · rfl
  · exact ⟨true, rfl⟩

theorem splitDigits_digits (digits : Digits ds) (ends : ∀ c ∈ rest.head?, c.isDigit = false) :
    ∃ d more, splitDigits (ds ++ rest) = (d :: more, rest) := by
  obtain ⟨d, more, rfl⟩ := List.exists_cons_of_ne_nil digits.some
  exact ⟨d, more, splitDigits_append digits.all ends⟩

theorem fractionPart_text (atEnd : Cause) (fraction : Fraction ds)
    (ends : ∀ c ∈ rest.head?, c.isDigit = false ∧ c ≠ '.') :
    ∃ digits, fractionPart atEnd (ds ++ rest) = .ok (digits, rest) := by
  cases fraction with
  | none =>
    refine ⟨Option.none, ?_⟩
    rw [List.nil_append]
    unfold fractionPart
    split
    · exact absurd rfl (ends _ rfl).2
    · rfl
  | @point ds digits =>
    obtain ⟨d, more, split⟩ := splitDigits_digits digits fun c next => (ends c next).1
    exact ⟨some (d :: more), by simp [fractionPart, split]⟩

theorem exponentSign_digits (signed : sign ∈ [[], ['+'], ['-']]) (digits : Digits ds)
    (rest : List Char) :
    ∃ negative, exponentSign (sign ++ (ds ++ rest)) = (negative, ds ++ rest) := by
  obtain ⟨d, ds, rfl⟩ := List.exists_cons_of_ne_nil digits.some
  have digit := digits.all d (by simp)
  simp only [List.mem_cons, List.not_mem_nil, or_false] at signed
  rcases signed with rfl | rfl | rfl
  · refine ⟨false, ?_⟩
    unfold exponentSign
    split
    · next same =>
      rw [(List.cons.inj same).1] at digit
      contradiction
    · next same =>
      rw [(List.cons.inj same).1] at digit
      contradiction
    · rfl
  · exact ⟨false, rfl⟩
  · exact ⟨true, rfl⟩

theorem exponentPart_text (atEnd : Cause) (exponent : Exponent ds) (ends : EndsNumber rest) :
    ∃ power, exponentPart atEnd (ds ++ rest) = .ok (power, rest) := by
  cases exponent with
  | none => exact ⟨Option.none, exponentPart_absent ends⟩
  | @power mark sign ds letter signed digits =>
    obtain ⟨negative, signs⟩ := exponentSign_digits signed digits rest
    obtain ⟨d, more, split⟩ := splitDigits_digits digits fun c next => (ends c next).1
    refine ⟨some (negative, d :: more), ?_⟩
    rcases letter with rfl | rfl <;>
      simp [exponentPart, exponentDigits, List.append_assoc, signs, split]

theorem skipNumber_text (spelled : NumberText ds) (ends : EndsNumber rest) :
    skipNumber (ds ++ rest) = .ok rest := by
  cases spelled with
  | @parts sign whole fraction exponent signed digits point power =>
    have afterFraction : ∀ c ∈ (exponent ++ rest).head?, c.isDigit = false ∧ c ≠ '.' := by
      cases power with
      | none => exact fun c next => ⟨(ends c next).1, (ends c next).2.1⟩
      | power letter _ _ => rcases letter with rfl | rfl <;> simp
    have afterWhole : ∀ c ∈ (fraction ++ (exponent ++ rest)).head?, c.isDigit = false := by
      cases point with
      | none => exact fun c next => (afterFraction c next).1
      | point _ => simp
    obtain ⟨negative, unsigned⟩ :=
      minus_sign signed digits.toDigits (fraction ++ (exponent ++ rest))
    obtain ⟨below, fractions⟩ := fractionPart_text .invalidNumber point afterFraction
    obtain ⟨times, exponents⟩ := exponentPart_text .invalidNumber power ends
    simp only [List.append_assoc, skipNumber, numeral, unsigned, wholePart_whole digits afterWhole,
      fractions, exponents, bind, Except.bind, pure, Except.pure]

/-- What is left to do once a value or a bracket has been taken. -/
def proceed (clock : List Char) : List Bracket × List Char → Except Failure (List Char)
  | ([], rest) => .ok rest
  | (.square :: outer, rest) => skipWithin clock (.square :: outer) rest
  | (.curly :: outer, rest) => skipKey rest >>= skipWithin clock (.curly :: outer)

def resume (clock : List Char) (opened : List Bracket) (text : List Char) :
    Except Failure (List Char) :=
  unwind opened text >>= proceed clock

def inside (b : Bracket) (first : Bool) (clock : List Char) (opened : List Bracket)
    (text : List Char) : Except Failure (List Char) :=
  (if first then enter b opened text else unwind (b :: opened) text) >>= proceed clock

theorem skipWithin_cons (tick : Char) (clock : List Char) (opened : List Bracket)
    (text : List Char) :
    skipWithin (tick :: clock) opened text = skipStart opened text >>= proceed clock := by
  rw [skipWithin]
  congr 1

theorem skipWithin_append (blank : Blank before) (clock : List Char) (opened : List Bracket)
    (text : List Char) :
    skipWithin clock opened (before ++ text) = skipWithin clock opened text := by
  cases clock with
  | nil => rfl
  | cons tick clock => simp only [skipWithin_cons, skipStart, skipBlanks_append blank]

theorem inside_close (b : Bracket) (blank : Blank before) (first : Bool) (clock : List Char)
    (opened : List Bracket) (rest : List Char) :
    inside b first clock opened (before ++ b.closing :: rest) = resume clock opened rest := by
  cases b <;> cases first <;>
    simp [inside, resume, enter, unwind, skipBlanks_append blank, Bracket.closing,
      skipBlanks_cons (c := ']') rfl, skipBlanks_cons (c := '\x7d') rfl]

theorem inside_item (mark : Separator first sep) (value : Wellformed text rest)
    (clock : List Char) (opened : List Bracket) :
    inside .square first clock opened (sep ++ text) =
      skipWithin clock (.square :: opened) text := by
  obtain ⟨c, cs, rfl, solid, notEnd⟩ := value.solid
  cases first with
  | true =>
    simp [inside, enter, skipBlanks_append mark, skipBlanks_cons solid, Bracket.closing, notEnd]
    rfl
  | false =>
    obtain ⟨after, blank, skipped⟩ := skipBlanks_mark mark rfl
    simp [inside, unwind, skipped]
    exact skipWithin_append blank clock _ _

theorem skipKey_text (key : StringText chars (sign ++ text)) (sep : Mark ':' sign)
    (blank : Blank before) :
    ∃ after, Blank after ∧ skipKey (before ++ '"' :: chars) = .ok (after ++ text) := by
  obtain ⟨after, blank', skipped⟩ := skipBlanks_mark sep rfl
  refine ⟨after, blank', ?_⟩
  simp [skipKey, skipBlanks_append blank, skipBlanks_quote, skipString_text key, colon, skipped,
    bind, Except.bind]

theorem inside_member (mark : Separator first sep) (key : StringText chars (sign ++ text))
    (colon : Mark ':' sign) (clock : List Char) (opened : List Bracket) :
    inside .curly first clock opened (sep ++ '"' :: chars) =
      skipWithin clock (.curly :: opened) text := by
  have keyed (before : List Char) (blank : Blank before) :
      proceed clock (.curly :: opened, before ++ '"' :: chars) =
        skipWithin clock (.curly :: opened) text := by
    obtain ⟨after, blank', skipped⟩ := skipKey_text key colon blank
    rw [proceed, skipped]
    exact skipWithin_append blank' clock _ _
  cases first with
  | true =>
    simp [inside, enter, skipBlanks_append mark, skipBlanks_quote, Bracket.closing]
    exact keyed [] Blank.nil
  | false =>
    obtain ⟨after, blank, skipped⟩ := skipBlanks_mark mark rfl
    simp [inside, unwind, skipped]
    exact keyed after blank

/-- A part of a text is skipped in as many steps as it has characters, or fewer; then the reader
goes on after it. -/
def Takes (text rest : List Char)
    (skip : (clock : List Char) → List Bracket → List Char → Except Failure (List Char)) : Prop :=
  ∃ used, used + rest.length ≤ text.length ∧ ∀ clock opened, used ≤ clock.length →
    skip clock opened text = resume (clock.drop used) opened rest

theorem takes_scalar (longer : rest.length < text.length)
    (scalar : ∀ opened, skipStart opened text = unwind opened rest) :
    Takes text rest skipWithin := by
  refine ⟨1, by omega, fun clock opened enough => ?_⟩
  obtain ⟨tick, clock, rfl⟩ := List.exists_cons_of_length_pos enough
  rw [skipWithin_cons, scalar]
  rfl

/-- The bracket takes a step, and what is inside of it the others. -/
theorem takes_bracket (b : Bracket)
    (opens : ∀ opened, skipStart opened (c :: text) = enter b opened text)
    (content : Takes text rest (inside b true)) : Takes (c :: text) rest skipWithin := by
  obtain ⟨used, enough, skips⟩ := content
  refine ⟨used + 1, by simp only [List.length_cons]; omega, fun clock opened long => ?_⟩
  obtain ⟨tick, clock, rfl⟩ := List.exists_cons_of_length_pos (Nat.zero_lt_of_lt long)
  rw [skipWithin_cons, opens]
  exact skips clock opened (Nat.le_of_succ_le_succ long)

/-- A value inside of a bracket takes its steps, and what follows it there the others. -/
theorem takes_value (before : List Char)
    (starts : ∀ clock opened,
      inside b first clock opened (before ++ text) = skipWithin clock (b :: opened) value)
    (shorter : value.length ≤ text.length) (taken : Takes value next skipWithin)
    (more : Takes next rest (inside b false)) :
    Takes (before ++ text) rest (inside b first) := by
  obtain ⟨used, enough, skips⟩ := taken
  obtain ⟨used', enough', skips'⟩ := more
  refine ⟨used + used', by simp only [List.length_append]; omega, fun clock opened long => ?_⟩
  rw [starts, skips clock _ (by omega), ← List.drop_drop]
  exact skips' (clock.drop used) opened (by rw [List.length_drop]; omega)

theorem takes_close (b : Bracket) (blank : Blank before) (first : Bool) :
    Takes (before ++ b.closing :: rest) rest (inside b first) :=
  ⟨0, by simp; omega, fun clock opened _ => inside_close b blank first clock opened rest⟩

theorem skipStart_number (spelled : NumberText ds) (ends : EndsNumber rest)
    (opened : List Bracket) : skipStart opened (ds ++ rest) = unwind opened rest := by
  have skipped := skipNumber_text spelled ends
  obtain ⟨c, cs, rfl, first⟩ := spelled.starts
  obtain ⟨solid, apart⟩ := number_starts_value first
  simp only [List.forall_mem_cons] at apart
  have scalar : skipScalar (c :: (cs ++ rest)) = .ok rest := by
    unfold skipScalar
    split
    case h_6 same =>
      obtain ⟨rfl, rfl⟩ := List.cons.inj same
      rw [if_pos first]
      exact skipped
    all_goals simp_all
  rw [List.cons_append, skipStart, skipBlanks_cons solid]
  split
  · next same => exact absurd (List.cons.inj same).1 (by simp [apart])
  · next same => exact absurd (List.cons.inj same).1 (by simp [apart])
  · rw [scalar]
    rfl

mutual

theorem Wellformed.takes : Wellformed text rest → Takes text rest skipWithin
  | .null => takes_scalar (by simp; omega) fun _ => rfl
  | .isTrue => takes_scalar (by simp; omega) fun _ => rfl
  | .isFalse => takes_scalar (by simp; omega) fun _ => rfl
  | .number digits ends =>
    takes_scalar (Wellformed.number digits ends).length_lt (skipStart_number digits ends)
  | .string chars => takes_scalar (Nat.lt_succ_of_lt chars.length_lt) fun opened => by
    simp [skipStart, skipBlanks_quote, skipScalar, skipString_text chars, bind, Except.bind]
  | .array items => takes_bracket .square (fun _ => rfl) items.takes
  | .object members => takes_bracket .curly (fun _ => rfl) members.takes

theorem WellformedItems.takes :
    WellformedItems first text rest → Takes text rest (inside .square first)
  | .nil blank => takes_close .square blank first
  | .cons mark value more =>
    takes_value _ (inside_item mark value) (Nat.le_refl _) value.takes more.takes

theorem WellformedMembers.takes :
    WellformedMembers first text rest → Takes text rest (inside .curly first)
  | .nil blank => takes_close .curly blank first
  | .cons mark key sign value more =>
    have shorter := key.length_lt
    takes_value _ (inside_member mark key sign)
      (by simp only [List.length_cons, List.length_append] at *; omega) value.takes more.takes

end

/-- A well-formed value is skipped as a whole. -/
theorem skipValue_wellformed (blank : Blank before) (value : Wellformed text rest) :
    skipValue (before ++ text) = .ok rest := by
  obtain ⟨used, enough, skips⟩ := value.takes
  rw [skipValue, skipWithin_append blank, skips _ [] (by simp only [List.length_append]; omega)]
  rfl

theorem Wellformed.unique (left : Wellformed text rest) (right : Wellformed text rest') :
    rest = rest' :=
  Except.ok.inj ((skipValue_wellformed Blank.nil left).symm.trans
    (skipValue_wellformed Blank.nil right))

end River.Json
