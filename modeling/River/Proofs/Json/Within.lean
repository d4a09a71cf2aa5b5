import River.Json.Skip

/-! Scanners stay in their text: what they leave is no longer than what they were given, and no
failure is placed further from the end than that. -/
namespace River.Json

open Text (byteLength)

/-- What is left, or where a failure is, is at most `bound` bytes from the end. -/
def Within (bound : Nat) (left : α → List Char) : Except Failure α → Prop
  | .ok a => byteLength (left a) ≤ bound
  | .error (.placed _ left) => left ≤ bound
  | .error (.loose _ rest) => byteLength rest ≤ bound

namespace Within

theorem bind {left : α → List Char} {left' : β → List Char} {outcome : Except Failure α}
    {next : α → Except Failure β} (first : Within bound left outcome)
    (second : ∀ a, byteLength (left a) ≤ bound → Within bound left' (next a)) :
    Within bound left' (outcome >>= next) := by
  match outcome, first with
  | .error (.placed _ _), first => exact first
  | .error (.loose _ _), first => exact first
  | .ok a, first => exact second a first

theorem failHere (le : byteLength rest ≤ bound) {left : α → List Char} :
    Within bound left (failHere cause rest) := le

theorem failAfterNext (le : byteLength rest ≤ bound) {left : α → List Char} :
    Within bound left (failAfterNext cause rest) := Nat.le_trans (Nat.sub_le _ 1) le

theorem failLoose (le : byteLength rest ≤ bound) {left : α → List Char} :
    Within bound left (failLoose cause rest) := le

end Within

theorem tail_le (le : byteLength (c :: rest) ≤ bound) : byteLength rest ≤ bound :=
  Nat.le_trans (Nat.le_add_left _ _) le

theorem byteLength_drop_le (n : Nat) (text : List Char) :
    byteLength (text.drop n) ≤ byteLength text := by
  have whole := Text.byteLength_append (text.take n) (text.drop n)
  rw [List.take_append_drop] at whole
  exact whole ▸ Nat.le_add_left _ _

theorem byteLength_dropWhile_le (p : Char → Bool) (text : List Char) :
    byteLength (text.dropWhile p) ≤ byteLength text := by
  have whole := Text.byteLength_append (text.takeWhile p) (text.dropWhile p)
  rw [List.takeWhile_append_dropWhile] at whole
  exact whole ▸ Nat.le_add_left _ _

theorem length_le_byteLength (text : List Char) : text.length ≤ byteLength text := by
  induction text with
  | nil => exact Nat.le_refl 0
  | cons c text ih =>
    have := c.utf8Size_pos
    simp only [List.length_cons, byteLength]
    omega

section

variable {text : List Char} {bound : Nat} (enough : byteLength text ≤ bound)
include enough

theorem within_skipBlanks (skipped : skipBlanks text = rest) : byteLength rest ≤ bound :=
  skipped ▸ Nat.le_trans (byteLength_dropWhile_le isBlank text) enough

theorem within_word (letters : List Char) : Within bound id (word letters text) := by
  induction letters generalizing text with
  | nil => exact enough
  | cons w ws ih =>
    cases text with
    | nil => exact .failAfterNext enough
    | cons c text =>
      rw [word]
      split
      · exact ih (tail_le enough)
      · exact .failAfterNext enough

theorem within_hexUnit : Within bound Prod.snd (hexUnit text) := by
  have invalid : Within bound Prod.snd (if byteLength text < 4 then .error (.placed .endInString 0)
      else .error (.placed .invalidEscape (byteLength text - 4)) :
        Except Failure (Nat × List Char)) := by
    split
    · exact Nat.zero_le bound
    · exact Nat.le_trans (Nat.sub_le _ 4) enough
  unfold hexUnit
  dsimp only
  split
  · split
    · exact tail_le (tail_le (tail_le (tail_le enough)))
    · exact invalid
  · exact invalid

theorem within_escapedUnit : Within bound Prod.snd (escapedUnit text) := by
  unfold escapedUnit
  split
  case h_1 => exact .failHere enough
  case h_10 => exact within_hexUnit (tail_le enough)
  case h_11 => exact .failAfterNext enough
  all_goals exact tail_le enough

theorem within_pairMark (c : Char) : Within bound id (pairMark c text) := by
  unfold pairMark
  split
  · exact .failHere enough
  · split
    · exact tail_le enough
    · exact .failAfterNext enough

theorem within_escapedChar : Within bound Prod.snd (escapedChar text) := by
  refine (within_escapedUnit enough).bind fun (n, rest) enough => ?_
  dsimp only
  split
  · exact .failHere enough
  · split
    · refine (within_pairMark enough _).bind fun rest enough => ?_
      refine (within_pairMark enough _).bind fun rest enough => ?_
      refine (within_hexUnit enough).bind fun (m, rest) enough => ?_
      dsimp only
      split
      · exact enough
      · exact .failHere enough
    · exact enough

theorem within_stringRest (clock : List Char) : Within bound Prod.snd (stringRest clock text) := by
  induction clock generalizing text with
  | nil => exact .failHere (Nat.zero_le bound)
  | cons tick clock ih =>
    cases text with
    | nil => exact .failHere enough
    | cons c text =>
      have enough := tail_le enough
      rw [stringRest]
      split
      · exact enough
      · split
        · exact (within_escapedChar enough).bind fun (d, rest) enough =>
            (ih enough).bind fun _ enough => enough
        · split
          · exact .failHere enough
          · exact (ih enough).bind fun _ enough => enough

theorem within_skipStringRest (clock : List Char) :
    Within bound id (skipStringRest clock text) := by
  induction clock generalizing text with
  | nil => exact .failHere (Nat.zero_le bound)
  | cons tick clock ih =>
    cases text with
    | nil => exact .failHere enough
    | cons c text =>
      rw [skipStringRest]
      split
      · exact tail_le enough
      · split
        · exact (within_escapedUnit (tail_le enough)).bind fun (n, rest) enough => ih enough
        · split
          · exact .failHere enough
          · exact ih (tail_le enough)

theorem within_splitDigits (digits : splitDigits text = (ds, rest)) :
    byteLength (ds ++ rest) ≤ bound := by
  cases digits
  rwa [List.takeWhile_append_dropWhile]

theorem within_wholePart (atEnd : Cause) : Within bound Prod.snd (wholePart atEnd text) := by
  unfold wholePart
  split
  · exact .failHere enough
  · split
    · split
      · exact .failAfterNext (tail_le enough)
      · exact tail_le enough
    · exact tail_le enough
  · split
    · exact Nat.le_trans (byteLength_dropWhile_le _ _) enough
    · exact .failAfterNext enough

theorem within_fractionPart (atEnd : Cause) : Within bound Prod.snd (fractionPart atEnd text) := by
  unfold fractionPart
  split
  · split
    · exact .failHere (Nat.zero_le bound)
    · next split => exact .failAfterNext (within_splitDigits (tail_le enough) split)
    · next split =>
      have := within_splitDigits (tail_le enough) split
      rw [Text.byteLength_append] at this
      exact Nat.le_trans (Nat.le_add_left _ _) this
  · exact enough

/-- The digits of an exponent and what is left after them. -/
theorem within_exponentDigits (atEnd : Cause) : Within bound
    (fun p => p.1.elim [] Prod.snd ++ p.2) (exponentDigits atEnd text) := by
  have sign : byteLength (exponentSign text).2 ≤ bound := by
    unfold exponentSign
    split
    · exact tail_le enough
    · exact tail_le enough
    · exact enough
  unfold exponentDigits
  dsimp only
  split
  · exact .failHere (Nat.zero_le bound)
  · next split => exact .failAfterNext (within_splitDigits sign split)
  · next split => exact within_splitDigits sign split

theorem within_exponentPart (atEnd : Cause) : Within bound
    (fun p => p.1.elim [] Prod.snd ++ p.2) (exponentPart atEnd text) := by
  unfold exponentPart
  split
  · exact within_exponentDigits (tail_le enough) atEnd
  · exact within_exponentDigits (tail_le enough) atEnd
  · exact enough

theorem within_numeral (atEnd : Cause) : Within bound
    (fun p => p.1.exponent.elim [] Prod.snd ++ p.2) (numeral atEnd text) := by
  have sign : byteLength (minus text).2 ≤ bound := by
    unfold minus
    split
    · exact tail_le enough
    · exact enough
  refine (within_wholePart sign atEnd).bind fun (_, rest) enough => ?_
  refine (within_fractionPart enough atEnd).bind fun (_, rest) enough => ?_
  exact (within_exponentPart enough atEnd).bind fun _ enough => enough

theorem within_skipNumber : Within bound id (skipNumber text) := by
  refine (within_numeral enough _).bind fun (n, rest) enough => ?_
  rw [Text.byteLength_append] at enough
  exact Nat.le_trans (Nat.le_add_left _ _) enough

end

theorem length_exponentOverflow? {digits : List Char}
    (overflow : exponentOverflow? value digits = some rest) :
    rest.length ≤ digits.length := by
  induction digits generalizing value with
  | nil => cases overflow
  | cons d ds ih =>
    rw [exponentOverflow?] at overflow
    split at overflow
    · exact Nat.le_succ_of_le (ih overflow)
    · cases overflow
      exact Nat.le_succ _

/-- The digits that are not looked at belong to the exponent. -/
theorem unread_float {n : Numeral} (failed : n.float = .error unread) :
    unread ≤ (n.exponent.elim [] Prod.snd).length := by
  unfold Numeral.float at failed
  dsimp only at failed
  split at failed
  · split at failed
    · cases failed
    · cases failed
      exact Nat.zero_le _
  · next negative digits written =>
    rw [written, Option.elim_some]
    split at failed
    · next rest overflow =>
      split at failed
      · cases failed
      · cases failed
        exact length_exponentOverflow? overflow
    · split at failed
      · cases failed
      · cases failed
        exact Nat.zero_le _

theorem unread_value {n : Numeral} (failed : n.value = .error unread) :
    unread ≤ (n.exponent.elim [] Prod.snd).length := by
  unfold Numeral.value at failed
  dsimp only at failed
  split at failed
  · cases failed
  · split at failed
    · cases failed
    · cases outcome : n.float with
      | ok x => rw [outcome] at failed; cases failed
      | error unread' =>
        rw [outcome] at failed
        cases failed
        exact unread_float outcome

theorem within_readNumber {text : List Char} (enough : byteLength text ≤ bound) :
    Within bound Prod.snd (readNumber text) := by
  refine (within_numeral enough _).bind fun (n, rest) enough => ?_
  rw [Text.byteLength_append] at enough
  dsimp only at enough ⊢
  split
  · exact Nat.le_trans (Nat.le_add_left _ _) enough
  · next unread failed =>
    have few := unread_value failed
    have digits := length_le_byteLength (n.exponent.elim [] Prod.snd)
    exact (show byteLength rest + unread ≤ bound by omega)

section

variable {text : List Char} {bound : Nat} (enough : byteLength text ≤ bound)
include enough

theorem within_unwind (opened : List Bracket) : Within bound Prod.snd (unwind opened text) := by
  induction opened generalizing text with
  | nil => exact enough
  | cons b outer ih =>
    rw [unwind]
    split
    · exact .failHere (Nat.zero_le bound)
    · next skipped =>
      have enough := within_skipBlanks enough skipped
      split
      · exact tail_le enough
      · split
        · exact ih (tail_le enough)
        · exact .failAfterNext enough

theorem within_enter (b : Bracket) (outer : List Bracket) :
    Within bound Prod.snd (enter b outer text) := by
  unfold enter
  split
  · exact .failHere (Nat.zero_le bound)
  · next skipped =>
    have enough := within_skipBlanks enough skipped
    split
    · exact within_unwind (tail_le enough) outer
    · exact enough

theorem within_colon : Within bound id (colon text) := by
  unfold colon
  split
  · exact .failHere (Nat.zero_le bound)
  · next skipped =>
    have enough := within_skipBlanks enough skipped
    split
    · exact tail_le enough
    · exact .failAfterNext enough

theorem within_skipKey : Within bound id (skipKey text) := by
  unfold skipKey
  split
  · exact .failHere (Nat.zero_le bound)
  · next skipped =>
    have enough := within_skipBlanks enough skipped
    split
    · exact (within_skipStringRest (tail_le enough) _).bind fun rest enough => within_colon enough
    · exact .failAfterNext enough

theorem within_skipScalar : Within bound id (skipScalar text) := by
  unfold skipScalar
  split
  · exact .failHere enough
  · exact within_word (tail_le enough) _
  · exact within_word (tail_le enough) _
  · exact within_word (tail_le enough) _
  · exact within_skipStringRest (tail_le enough) _
  · split
    · exact within_skipNumber enough
    · exact .failAfterNext enough

theorem within_skipStart (opened : List Bracket) :
    Within bound Prod.snd (skipStart opened text) := by
  unfold skipStart
  split
  · next skipped => exact within_enter (tail_le (within_skipBlanks enough skipped)) _ _
  · next skipped => exact within_enter (tail_le (within_skipBlanks enough skipped)) _ _
  · exact (within_skipScalar (within_skipBlanks enough rfl)).bind fun rest enough =>
      within_unwind enough opened

theorem within_skipWithin (clock : List Char) (opened : List Bracket) :
    Within bound id (skipWithin clock opened text) := by
  induction clock generalizing opened text with
  | nil => exact .failHere (Nat.zero_le bound)
  | cons tick clock ih =>
    refine (within_skipStart enough opened).bind fun (opened, rest) enough => ?_
    rcases opened with _ | ⟨_ | _, outer⟩
    · exact enough
    · exact ih enough _
    · exact (within_skipKey enough).bind fun rest enough => ih enough _

end

end River.Json
