import Mathlib.Data.List.Induction
import River.Proofs.Json.Scanning

/-! What a scanner takes from the start of a text is a spelling of what it makes of it, and the rest
is what it leaves. -/
namespace River.Json

theorem skipBlanks_split (text : List Char) :
    ∃ before, Blank before ∧ text = before ++ skipBlanks text :=
  ⟨text.takeWhile isBlank, List.all_eq_true.mp List.all_takeWhile,
    List.takeWhile_append_dropWhile.symm⟩

theorem word_ok (h : word letters text = .ok rest) : text = letters ++ rest := by
  induction letters generalizing text with
  | nil => cases h; rfl
  | cons w ws ih =>
    cases text with
    | nil => cases h
    | cons c text =>
      unfold word at h
      split at h
      · next same => rw [same, ih h, List.cons_append]
      · cases h

theorem hexDigit_of_range (base shift count : Nat)
    (table : ∀ k < count, HexDigit (k + shift) (Char.ofNat (base + k))) (low : base ≤ c.toNat)
    (high : c.toNat < base + count) : HexDigit (c.toNat - base + shift) c := by
  have digit := table (c.toNat - base) (by omega)
  rwa [Nat.add_sub_cancel' low, Char.ofNat_toNat] at digit

theorem hexDigit_of_hexValue? (h : hexValue? c = some n) : HexDigit n c := by
  simp only [hexValue?, Char.le_def, UInt32.le_iff_toNat_le, Char.toNat_val] at h
  split at h
  · next range =>
    obtain rfl := Option.some.inj h
    exact hexDigit_of_range 48 0 10 (by unfold HexDigit; decide) range.1 (Nat.lt_succ_of_le range.2)
  · split at h
    · next range =>
      obtain rfl := Option.some.inj h
      exact hexDigit_of_range 97 10 6 (by unfold HexDigit; decide) range.1
        (Nat.lt_succ_of_le range.2)
    · split at h
      · next range =>
        obtain rfl := Option.some.inj h
        exact hexDigit_of_range 65 10 6 (by unfold HexDigit; decide) range.1
          (Nat.lt_succ_of_le range.2)
      · cases h

theorem HexWord.lt (word : HexWord n text) : n < 0x10000 := by
  cases word with
  | digits a b c d =>
    have := a.1
    omega

theorem hexUnit_ok (h : hexUnit text = .ok (n, rest)) :
    ∃ digits, HexWord n digits ∧ text = digits ++ rest := by
  have failed (p : Prop) [Decidable p] (x y : Failure) :
      (if p then .error x else .error y : Except Failure (Nat × List Char)) ≠ .ok (n, rest) := by
    split <;> simp
  unfold hexUnit at h
  dsimp only at h
  split at h
  · next a b c d more =>
    split at h
    · next v w x y first second third fourth =>
      obtain ⟨rfl, rfl⟩ := Prod.mk.inj (Except.ok.inj h)
      have first := hexDigit_of_hexValue? first
      have second := hexDigit_of_hexValue? second
      have third := hexDigit_of_hexValue? third
      have fourth := hexDigit_of_hexValue? fourth
      have := first.1
      have := second.1
      have := third.1
      have := fourth.1
      refine ⟨[a, b, c, d], .digits ?_ ?_ ?_ ?_, rfl⟩
      · rwa [show (((v * 16 + w) * 16 + x) * 16 + y) / 0x1000 = v by omega]
      · rwa [show (((v * 16 + w) * 16 + x) * 16 + y) / 0x100 % 0x10 = w by omega]
      · rwa [show (((v * 16 + w) * 16 + x) * 16 + y) / 0x10 % 0x10 = x by omega]
      · rwa [show (((v * 16 + w) * 16 + x) * 16 + y) % 0x10 = y by omega]
    · exact absurd h (failed _ _ _)
  · exact absurd h (failed _ _ _)

/-- An escape is a letter or a number of four digits. -/
theorem escapedUnit_ok (h : escapedUnit text = .ok (n, rest)) :
    (∃ letter c, (letter, c) ∈ letterEscapes ∧ n = c.toNat ∧ text = letter :: rest) ∨
    ∃ digits, HexWord n digits ∧ text = 'u' :: (digits ++ rest) := by
  unfold escapedUnit at h
  split at h
  case h_1 => cases h
  case h_10 =>
    obtain ⟨digits, word, rfl⟩ := hexUnit_ok h
    exact .inr ⟨digits, word, rfl⟩
  case h_11 => cases h
  all_goals
    obtain ⟨rfl, rfl⟩ := Prod.mk.inj (Except.ok.inj h)
    left
  · exact ⟨'"', '"', by decide, rfl, rfl⟩
  · exact ⟨'\\', '\\', by decide, rfl, rfl⟩
  · exact ⟨'/', '/', by decide, rfl, rfl⟩
  · exact ⟨'b', '\x08', by decide, rfl, rfl⟩
  · exact ⟨'f', '\x0c', by decide, rfl, rfl⟩
  · exact ⟨'n', '\n', by decide, rfl, rfl⟩
  · exact ⟨'r', '\r', by decide, rfl, rfl⟩
  · exact ⟨'t', '\t', by decide, rfl, rfl⟩

theorem pairMark_ok (h : pairMark c text = .ok rest) : text = c :: rest := by
  unfold pairMark at h
  split at h
  · cases h
  · split at h
    · next same => cases h; rw [same]
    · cases h

theorem toNat_of_valid (valid : n.isValidChar) : (Char.ofNat n).toNat = n := by
  rw [Char.ofNat, dif_pos valid]
  rfl

/-- Two surrogates make one character above the first `0x10000`. -/
theorem toNat_surrogatePair (high : isHighSurrogate n = true) (low : isLowSurrogate m = true) :
    (Char.ofNat (surrogatePair n m)).toNat = surrogatePair n m := by
  simp only [isHighSurrogate, isLowSurrogate, Bool.and_eq_true, decide_eq_true_eq] at high low
  have valid : (surrogatePair n m).isValidChar := by
    simp only [surrogatePair, Nat.isValidChar]
    omega
  exact toNat_of_valid valid

theorem escapedChar_ok (h : escapedChar text = .ok (c, rest)) :
    ∃ mark, SpellsChar c ('\\' :: mark) ∧ text = mark ++ rest := by
  obtain ⟨⟨n, text'⟩, unit, h⟩ := of_bind_ok h
  dsimp only at h
  split at h
  · cases h
  · next notLow =>
    split at h
    · next high =>
      obtain ⟨text₁, first, h⟩ := of_bind_ok h
      obtain ⟨text₂, second, h⟩ := of_bind_ok h
      obtain ⟨⟨m, text₃⟩, third, h⟩ := of_bind_ok h
      dsimp only at h
      split at h
      · next low =>
        obtain ⟨rfl, rfl⟩ := Prod.mk.inj (Except.ok.inj h)
        obtain ⟨digits', word', rfl⟩ := hexUnit_ok third
        obtain rfl := pairMark_ok second
        obtain rfl := pairMark_ok first
        rcases escapedUnit_ok unit with ⟨letter, d, _, rfl, _⟩ | ⟨digits, word, rfl⟩
        · simp [(not_surrogate d).2] at high
        · have code := toNat_surrogatePair high low
          simp only [isHighSurrogate, isLowSurrogate, Bool.and_eq_true, decide_eq_true_eq]
            at high low
          refine ⟨_, @SpellsChar.surrogates _ digits digits' ?_ ?_ ?_, by simp⟩
          · rw [code, surrogatePair]
            omega
          · rwa [code, surrogatePair, show 0xd800 + ((n - 0xd800) * 0x400 + (m - 0xdc00) +
              0x10000 - 0x10000) / 0x400 = n by omega]
          · rwa [code, surrogatePair, show 0xdc00 + ((n - 0xd800) * 0x400 + (m - 0xdc00) +
              0x10000 - 0x10000) % 0x400 = m by omega]
      · cases h
    · next notHigh =>
      obtain ⟨rfl, rfl⟩ := Prod.mk.inj (Except.ok.inj h)
      rcases escapedUnit_ok unit with ⟨letter, d, member, rfl, rfl⟩ | ⟨digits, word, rfl⟩
      · rw [Char.ofNat_toNat]
        exact ⟨[letter], .letter member, rfl⟩
      · have bound := word.lt
        have valid : n.isValidChar := by
          simp [isHighSurrogate, isLowSurrogate] at notLow notHigh
          simp only [Nat.isValidChar]
          omega
        refine ⟨'u' :: digits, .word ?_, rfl⟩
        rwa [toNat_of_valid valid]

theorem stringRest_ok (h : stringRest clock text = .ok (cs, rest)) : SpellsString cs text rest := by
  induction clock generalizing text cs with
  | nil => cases h
  | cons tick clock ih =>
    cases text with
    | nil => cases h
    | cons c text =>
      unfold stringRest at h
      split at h
      · next quote =>
        obtain ⟨rfl, rfl⟩ := Prod.mk.inj (Except.ok.inj h)
        rw [quote]
        exact .nil
      · next quote =>
        split at h
        · next backslash =>
          obtain ⟨⟨d, text'⟩, escaped, h⟩ := of_bind_ok h
          obtain ⟨⟨ds, text''⟩, more, h⟩ := of_bind_ok h
          obtain ⟨rfl, rfl⟩ := Prod.mk.inj (Except.ok.inj h)
          obtain ⟨mark, char, rfl⟩ := escapedChar_ok escaped
          rw [backslash]
          exact .cons char (ih more)
        · next backslash =>
          split at h
          · cases h
          · next control =>
            obtain ⟨⟨ds, text'⟩, more, h⟩ := of_bind_ok h
            obtain ⟨rfl, rfl⟩ := Prod.mk.inj (Except.ok.inj h)
            exact .cons (.raw (Nat.not_lt.mp control) quote backslash) (ih more)

theorem readString_ok (h : readString text = .ok (cs, rest)) : SpellsString cs text rest :=
  stringRest_ok h

theorem splitDigits_ok (h : splitDigits text = (ds, rest)) :
    text = ds ++ rest ∧ (∀ c ∈ ds, c.isDigit = true) ∧ ∀ c ∈ rest.head?, c.isDigit = false := by
  obtain ⟨rfl, rfl⟩ := Prod.mk.inj h
  refine ⟨List.takeWhile_append_dropWhile.symm, List.all_eq_true.mp List.all_takeWhile, ?_⟩
  intro c next
  have stop := List.head?_dropWhile_not Char.isDigit text
  rw [Option.mem_def.mp next] at stop
  exact stop

theorem wholePart_ok (h : wholePart atEnd text = .ok (ds, rest)) :
    Whole ds ∧ text = ds ++ rest ∧ ∀ c ∈ rest.head?, c.isDigit = false := by
  have zero : Whole ['0'] := ⟨⟨by simp, by simp [Char.isDigit]⟩, fun _ => rfl⟩
  unfold wholePart at h
  split at h
  · cases h
  · split at h
    · split at h
      · cases h
      · next d more notDigit =>
        obtain ⟨rfl, rfl⟩ := Prod.mk.inj (Except.ok.inj h)
        exact ⟨zero, rfl, by simpa using notDigit⟩
    · obtain ⟨rfl, rfl⟩ := Prod.mk.inj (Except.ok.inj h)
      exact ⟨zero, rfl, by simp⟩
  · next c more notZero =>
    split at h
    · next digit =>
      have split := Except.ok.inj h
      obtain ⟨same, all, ends⟩ := splitDigits_ok split
      have first : ds = c :: more.takeWhile Char.isDigit := by
        rw [← (Prod.mk.inj split).1, List.takeWhile_cons_of_pos digit]
      refine ⟨⟨⟨by simp [first], all⟩, fun start => ?_⟩, same, ends⟩
      rw [first, List.head?_cons, Option.some_inj] at start
      exact absurd start notZero
    · cases h

theorem digits_of_split (h : splitDigits text = (ds, rest)) (some : ds ≠ []) :
    Digits ds ∧ text = ds ++ rest :=
  ⟨⟨some, (splitDigits_ok h).2.1⟩, (splitDigits_ok h).1⟩

/-- Without a fraction there is no point. -/
theorem fractionPart_ok (h : fractionPart atEnd text = .ok (fraction, rest)) :
    ∃ ds, Fraction ds ∧ text = ds ++ rest ∧
      (fraction = none → ds = [] ∧ ∀ c ∈ rest.head?, c ≠ '.') := by
  unfold fractionPart at h
  split at h
  · split at h
    · cases h
    · cases h
    · next some split =>
      obtain ⟨rfl, rfl⟩ := Prod.mk.inj (Except.ok.inj h)
      obtain ⟨digits, rfl⟩ := digits_of_split split fun none => by simp_all
      exact ⟨_, .point digits, rfl, nofun⟩
  · next text noPoint =>
    obtain ⟨rfl, rfl⟩ := Prod.mk.inj (Except.ok.inj h)
    refine ⟨[], .none, rfl, fun _ => ⟨rfl, ?_⟩⟩
    rintro c next rfl
    obtain ⟨more, rfl⟩ := List.head?_eq_some_iff.mp next
    exact noPoint more rfl

theorem exponentSign_ok (h : exponentSign text = (negative, rest)) :
    ∃ sign ∈ [[], ['+'], ['-']], text = sign ++ rest := by
  unfold exponentSign at h
  split at h <;> obtain ⟨-, rfl⟩ := Prod.mk.inj h
  · exact ⟨['+'], by simp, rfl⟩
  · exact ⟨['-'], by simp, rfl⟩
  · exact ⟨[], by simp, rfl⟩

theorem exponentDigits_ok (h : exponentDigits atEnd text = .ok (power, rest)) :
    power ≠ none ∧ ∃ sign ∈ [[], ['+'], ['-']], ∃ ds, Digits ds ∧ text = sign ++ (ds ++ rest) := by
  unfold exponentDigits at h
  dsimp only at h
  obtain ⟨sign, signed, same⟩ := exponentSign_ok (rfl : exponentSign text = _)
  split at h
  · cases h
  · cases h
  · next some split =>
    obtain ⟨rfl, rfl⟩ := Prod.mk.inj (Except.ok.inj h)
    obtain ⟨digits, rest⟩ := digits_of_split split fun none => by simp_all
    exact ⟨nofun, sign, signed, _, digits, rest ▸ same⟩

theorem exponentPart_ok (h : exponentPart atEnd text = .ok (power, rest)) :
    ∃ ds, Exponent ds ∧ text = ds ++ rest ∧
      (power = none → ds = [] ∧ ∀ c ∈ rest.head?, c ≠ 'e' ∧ c ≠ 'E') := by
  have marked (mark : Char) (letter : mark = 'e' ∨ mark = 'E') {text : List Char}
      (h : exponentDigits atEnd text = .ok (power, rest)) :
      ∃ ds, Exponent ds ∧ mark :: text = ds ++ rest ∧
        (power = none → ds = [] ∧ ∀ c ∈ rest.head?, c ≠ 'e' ∧ c ≠ 'E') := by
    obtain ⟨some, sign, signed, ds, digits, rfl⟩ := exponentDigits_ok h
    exact ⟨mark :: (sign ++ ds), .power letter signed digits, by simp, fun none => absurd none some⟩
  unfold exponentPart at h
  split at h
  · exact marked 'e' (.inl rfl) h
  · exact marked 'E' (.inr rfl) h
  · next text noLower noUpper =>
    obtain ⟨rfl, rfl⟩ := Prod.mk.inj (Except.ok.inj h)
    refine ⟨[], .none, rfl, fun _ => ⟨rfl, fun c next => ?_⟩⟩
    obtain ⟨more, rfl⟩ := List.head?_eq_some_iff.mp next
    exact ⟨fun same => noLower more (same ▸ rfl), fun same => noUpper more (same ▸ rfl)⟩

theorem minus_ok (h : minus text = (negative, rest)) :
    ∃ sign ∈ [[], ['-']], text = sign ++ rest ∧ (negative = false → sign = []) := by
  unfold minus at h
  split at h <;> obtain ⟨rfl, rfl⟩ := Prod.mk.inj h
  · exact ⟨['-'], by simp, rfl, nofun⟩
  · exact ⟨[], by simp, rfl, fun _ => rfl⟩

theorem numeral_ok (h : numeral atEnd text = .ok (n, rest)) :
    (∃ spelled, NumberText spelled ∧ text = spelled ++ rest) ∧
    (n.negative = false → n.fraction = none → n.exponent = none →
      Whole n.whole ∧ text = n.whole ++ rest ∧ EndsNumber rest) := by
  obtain ⟨⟨whole, text₁⟩, first, h⟩ := of_bind_ok h
  obtain ⟨⟨fraction, text₂⟩, second, h⟩ := of_bind_ok h
  obtain ⟨⟨exponent, text₃⟩, third, h⟩ := of_bind_ok h
  obtain ⟨rfl, rfl⟩ := Prod.mk.inj (Except.ok.inj h)
  obtain ⟨sign, signed, start, unsigned⟩ := minus_ok (rfl : minus text = _)
  obtain ⟨digits, rest₁, ends⟩ := wholePart_ok first
  obtain ⟨point, fractional, rfl, noPoint⟩ := fractionPart_ok second
  obtain ⟨mark, power, rfl, noMark⟩ := exponentPart_ok third
  rw [rest₁] at start
  constructor
  · refine ⟨sign ++ (whole ++ (point ++ mark)), .parts signed digits fractional power, ?_⟩
    simpa using start
  · intro positive none none'
    obtain ⟨rfl, apart⟩ := noPoint none
    obtain ⟨rfl, apart'⟩ := noMark none'
    rw [unsigned positive] at start
    exact ⟨digits, start, fun c next => ⟨ends c next, apart c next, apart' c next⟩⟩

theorem digitChar_of_isDigit (digit : d.isDigit = true) :
    d.toNat - '0'.toNat < 10 ∧ Nat.digitChar (d.toNat - '0'.toNat) = d := by
  obtain ⟨low, high⟩ := Char.isDigit_iff_toNat.mp digit
  have small : d.toNat - '0'.toNat < 10 := Nat.sub_lt_left_of_lt_add low (Nat.lt_succ_of_le high)
  have table : ∀ k < 10, Nat.digitChar k = Char.ofNat ('0'.toNat + k) := by decide
  refine ⟨small, ?_⟩
  rw [table _ small, Nat.add_sub_cancel' low, Char.ofNat_toNat]

/-- Digits without a leading zero are the digits of their number. -/
theorem toDigits_ofDigitChars (whole : Whole ds) :
    Nat.toDigits 10 (Nat.ofDigitChars 10 ds 0) = ds := by
  induction ds using List.reverseRecOn with
  | nil => exact absurd rfl whole.some
  | append_singleton ds d ih =>
    obtain ⟨small, last⟩ := digitChar_of_isDigit (whole.all d (by simp))
    rw [Nat.ofDigitChars_append, Nat.ofDigitChars_cons, Nat.ofDigitChars_nil]
    by_cases none : ds = []
    · rw [none, Nat.ofDigitChars_nil, Nat.mul_zero, Nat.zero_add,
        Nat.toDigits_of_lt_base small, last, List.nil_append]
    · have digits : Digits ds := ⟨none, fun c member => whole.all c (by simp [member])⟩
      obtain ⟨c, cs, rfl⟩ := List.exists_cons_of_ne_nil none
      have nonzero : c ≠ '0' := fun zero => by simpa using whole.zero (by simp [zero])
      have front := ih ⟨digits, fun first => absurd (Option.some.inj first) nonzero⟩
      have positive : 0 < Nat.ofDigitChars 10 (c :: cs) 0 := by
        refine Nat.pos_of_ne_zero fun zero => ?_
        rw [zero, Nat.toDigits_zero] at front
        exact nonzero (List.cons.inj front).1.symm
      rw [Nat.toDigits_of_base_le (by decide) (by omega), Nat.mul_add_mod, Nat.mod_eq_of_lt small,
        Nat.mul_add_div (by decide), Nat.div_eq_of_lt small, Nat.add_zero, front, last]

/-- A number of digits alone has neither a sign nor a leading zero. -/
theorem NumberText.toDigits (number : NumberText text) (digits : ∀ c ∈ text, c.isDigit = true) :
    Nat.toDigits 10 (Nat.ofDigitChars 10 text 0) = text := by
  cases number with
  | parts signed whole fraction exponent =>
    simp only [List.mem_append, or_imp, forall_and] at digits
    obtain ⟨unsigned, -, noPoint, noMark⟩ := digits
    cases fraction with
    | point => simp [Char.isDigit] at noPoint
    | none =>
      cases exponent with
      | power mark => rcases mark with rfl | rfl <;> simp [Char.isDigit] at noMark
      | none =>
        simp only [List.mem_cons, List.not_mem_nil, or_false] at signed
        rcases signed with rfl | rfl
        · simpa using toDigits_ofDigitChars whole
        · simp [Char.isDigit] at unsigned

theorem readNumber_natural (h : readNumber text = .ok (.natural n, rest)) :
    n < wordLimit ∧ EndsNumber rest ∧ text = Nat.toDigits 10 n ++ rest := by
  obtain ⟨⟨m, text'⟩, spelled, h⟩ := of_bind_ok h
  dsimp only at h
  split at h
  · next value same =>
    obtain ⟨rfl, rfl⟩ := Prod.mk.inj (Except.ok.inj h)
    unfold Numeral.value at same
    dsimp only at same
    split at same
    · next plain =>
      obtain ⟨noFraction, noExponent, positive, fits⟩ := plain
      obtain ⟨whole, rfl, ends⟩ := (numeral_ok spelled).2 positive
        (Option.isNone_iff_eq_none.mp noFraction) (Option.isNone_iff_eq_none.mp noExponent)
      cases same
      exact ⟨fits, ends, by rw [toDigits_ofDigitChars whole]⟩
    · split at same
      · cases same
      · cases float : m.float with
        | error _ => rw [float] at same; cases same
        | ok _ => rw [float] at same; cases same
  · cases h

end River.Json
