import River.Proofs.Json.Scanned
import River.Proofs.Json.Skipping

/-! What is skipped was well-formed: the machine that skips a value never goes past a text that the
grammar does not have. -/
namespace River.Json

theorem skipStringRest_ok (h : skipStringRest clock text = .ok rest) : StringText text rest := by
  induction clock generalizing text with
  | nil => cases h
  | cons tick clock ih =>
    cases text with
    | nil => cases h
    | cons c text =>
      unfold skipStringRest at h
      split at h
      · next quote =>
        cases h
        rw [quote]
        exact .nil
      · next quote =>
        split at h
        · next backslash =>
          obtain ⟨⟨n, text'⟩, unit, more⟩ := of_bind_ok h
          rw [backslash]
          rcases escapedUnit_ok unit with ⟨letter, d, member, -, rfl⟩ | ⟨digits, word, rfl⟩
          · exact .letter member (ih more)
          · exact .word word (ih more)
        · next backslash =>
          split at h
          · cases h
          · next control => exact .raw (Nat.not_lt.mp control) quote backslash (ih h)

theorem skipNumber_ok (h : skipNumber text = .ok rest) :
    ∃ spelled, NumberText spelled ∧ text = spelled ++ rest := by
  obtain ⟨⟨n, text'⟩, spelled, h⟩ := of_bind_ok h
  cases h
  exact (numeral_ok spelled).1

theorem skipScalar_ok (h : skipScalar text = .ok rest) (ends : EndsNumber rest) :
    Wellformed text rest := by
  unfold skipScalar at h
  split at h
  · cases h
  · rw [word_ok h]
    exact .null
  · rw [word_ok h]
    exact .isTrue
  · rw [word_ok h]
    exact .isFalse
  · exact .string (skipStringRest_ok h)
  · split at h
    · obtain ⟨spelled, number, same⟩ := skipNumber_ok h
      rw [same]
      exact .number number ends
    · cases h

theorem endsNumber_append (blank : Blank before) (ends : EndsNumber rest) :
    EndsNumber (before ++ rest) := by
  cases before with
  | nil => exact ends
  | cons c before =>
    intro d next
    cases next
    have solid := blank c (by simp)
    simp only [isBlank, Bool.or_eq_true, beq_iff_eq] at solid
    rcases solid with ((rfl | rfl) | rfl) | rfl <;> decide

theorem Mark.endsNumber (mark : Mark sign text) (ends : EndsNumber (sign :: [])) :
    EndsNumber (text ++ rest) := by
  obtain ⟨before, after, blank, -, rfl⟩ := mark
  rw [List.append_assoc]
  exact endsNumber_append blank fun c next => ends c next

theorem WellformedItems.endsNumber (items : WellformedItems false text rest) : EndsNumber text := by
  cases items with
  | nil blank => exact endsNumber_append blank (by simp [EndsNumber])
  | cons mark _ _ => exact Mark.endsNumber mark (by simp [EndsNumber])

theorem WellformedMembers.endsNumber (members : WellformedMembers false text rest) :
    EndsNumber text := by
  cases members with
  | nil blank => exact endsNumber_append blank (by simp [EndsNumber])
  | cons mark _ _ _ _ => exact Mark.endsNumber mark (by simp [EndsNumber])

theorem Blank.append (blank : Blank before) (blank' : Blank after) : Blank (before ++ after) :=
  List.forall_mem_append.mpr ⟨blank, blank'⟩

theorem Mark.append (mark : Mark sign text) (blank : Blank after) : Mark sign (text ++ after) := by
  obtain ⟨before, between, left, right, rfl⟩ := mark
  exact ⟨before, between ++ after, left, right.append blank, by simp⟩

theorem mark_of_skipBlanks (h : skipBlanks text = sign :: rest) :
    ∃ mark, Mark sign mark ∧ text = mark ++ rest := by
  obtain ⟨before, blank, split⟩ := skipBlanks_split text
  exact ⟨before ++ [sign], ⟨before, [], blank, Blank.nil, rfl⟩, by rw [split, h]; simp⟩

theorem Separator.append (sep : Separator first mark) (blank : Blank after) :
    Separator first (mark ++ after) := by
  cases first with
  | true => exact Blank.append sep blank
  | false => exact Mark.append sep blank

namespace Bracket

/-- The rest of what is inside of a bracket, with the bracket that closes it. -/
def Content : Bracket → (first : Bool) → List Char → List Char → Prop
  | square => WellformedItems
  | curly => WellformedMembers

/-- What comes before a value in a bracket, after the separator. -/
def Opening : Bracket → List Char → List Char → Prop
  | square, text, value => ∃ before, Blank before ∧ text = before ++ value
  | curly, text, value => ∃ before key sign, Blank before ∧ Mark ':' sign ∧
      StringText key (sign ++ value) ∧ text = before ++ '"' :: key

theorem Content.close (b : Bracket) (blank : Blank before) (first : Bool) (rest : List Char) :
    b.Content first (before ++ b.closing :: rest) rest := by
  cases b with
  | square => exact WellformedItems.nil blank
  | curly => exact WellformedMembers.nil blank

theorem Content.value {b : Bracket} (sep : Separator first mark) (opening : b.Opening text start)
    (wellformed : Wellformed start next) (more : b.Content false next rest) :
    b.Content first (mark ++ text) rest := by
  cases b with
  | square =>
    obtain ⟨before, blank, rfl⟩ := opening
    rw [← List.append_assoc]
    exact WellformedItems.cons (sep.append blank) wellformed more
  | curly =>
    obtain ⟨before, key, sign, blank, colon, string, rfl⟩ := opening
    rw [← List.append_assoc]
    exact WellformedMembers.cons (sep.append blank) string colon wellformed more

theorem Content.endsNumber {b : Bracket} (content : b.Content false text rest) :
    EndsNumber text := by
  cases b with
  | square => exact WellformedItems.endsNumber content
  | curly => exact WellformedMembers.endsNumber content

end Bracket

/-- A text that closes the open brackets after a value. -/
def Closes : List Bracket → List Char → List Char → Prop
  | [], text, rest => text = rest
  | b :: outer, text, rest => ∃ next, b.Content false text next ∧ Closes outer next rest

/-- A text that goes on with a value in the innermost open bracket and closes them all. -/
def Resumes : List Bracket → List Char → List Char → Prop
  | [], text, rest => text = rest
  | b :: outer, text, rest =>
    ∃ value next, b.Opening text value ∧ Wellformed value next ∧ Closes (b :: outer) next rest

theorem Closes.endsNumber (closes : Closes opened text rest) (ends : EndsNumber rest) :
    EndsNumber text := by
  cases opened with
  | nil =>
    obtain rfl : text = rest := closes
    exact ends
  | cons b outer =>
    obtain ⟨next, content, _⟩ := closes
    exact content.endsNumber

theorem Resumes.content (resumes : Resumes (b :: outer) text rest) (sep : Separator first mark) :
    ∃ next, b.Content first (mark ++ text) next ∧ Closes outer next rest := by
  obtain ⟨value, next, opening, wellformed, next', content, closes⟩ := resumes
  exact ⟨next', .value sep opening wellformed content, closes⟩

theorem unwind_ok (h : unwind opened text = .ok (opened', text'))
    (resumes : Resumes opened' text' rest) : Closes opened text rest := by
  induction opened generalizing text with
  | nil =>
    cases h
    exact resumes
  | cons b outer ih =>
    obtain ⟨before, blank, split⟩ := skipBlanks_split text
    unfold unwind at h
    split at h
    · cases h
    · next c more start =>
      rw [start] at split
      split at h
      · next comma =>
        cases h
        rw [split, comma, List.append_cons]
        have sep : Separator false (before ++ [',']) := ⟨before, [], blank, Blank.nil, rfl⟩
        exact resumes.content sep
      · split at h
        · next close =>
          rw [split, close]
          exact ⟨more, .close b blank false more, ih h⟩
        · cases h

theorem enter_ok (h : enter b outer text = .ok (opened', text'))
    (resumes : Resumes opened' text' rest) :
    ∃ next, b.Content true text next ∧ Closes outer next rest := by
  obtain ⟨before, blank, split⟩ := skipBlanks_split text
  unfold enter at h
  split at h
  · cases h
  · next c more start =>
    rw [start] at split
    split at h
    · next close =>
      rw [split, close]
      exact ⟨more, .close b blank true more, unwind_ok h resumes⟩
    · cases h
      rw [split]
      exact resumes.content (show Separator true before from blank)

theorem colon_ok (h : colon text = .ok rest) : ∃ mark, Mark ':' mark ∧ text = mark ++ rest := by
  unfold colon at h
  split at h
  · cases h
  · next c more start =>
    split at h
    · next sign =>
      cases h
      exact mark_of_skipBlanks (sign ▸ start)
    · cases h

theorem skipKey_ok (h : skipKey text = .ok (before ++ value)) (blank : Blank before) :
    Bracket.curly.Opening text value := by
  obtain ⟨before', blank', split⟩ := skipBlanks_split text
  unfold skipKey at h
  split at h
  · cases h
  · next c more start =>
    rw [start] at split
    split at h
    · next quote =>
      obtain ⟨text', string, h⟩ := of_bind_ok h
      obtain ⟨mark, sign, rfl⟩ := colon_ok h
      rw [← List.append_assoc] at string
      exact ⟨before', more, mark ++ before, blank', sign.append blank, skipStringRest_ok string,
        by rw [split, quote]⟩
    · cases h

theorem skipStart_ok (h : skipStart opened text = .ok (opened', text'))
    (resumes : Resumes opened' text' rest) (ends : EndsNumber rest) :
    ∃ before value next, Blank before ∧ text = before ++ value ∧ Wellformed value next ∧
      Closes opened next rest := by
  obtain ⟨before, blank, split⟩ := skipBlanks_split text
  unfold skipStart at h
  split at h
  · next more start =>
    obtain ⟨next, content, closes⟩ := enter_ok h resumes
    exact ⟨before, _, next, blank, by rw [split, start], .array content, closes⟩
  · next more start =>
    obtain ⟨next, content, closes⟩ := enter_ok h resumes
    exact ⟨before, _, next, blank, by rw [split, start], .object content, closes⟩
  · obtain ⟨next, scalar, h⟩ := of_bind_ok h
    have closes := unwind_ok h resumes
    exact ⟨before, _, next, blank, split, skipScalar_ok scalar (closes.endsNumber ends), closes⟩

theorem skipWithin_ok (h : skipWithin clock opened text = .ok rest) (ends : EndsNumber rest) :
    ∃ before value next, Blank before ∧ text = before ++ value ∧ Wellformed value next ∧
      Closes opened next rest := by
  induction clock generalizing opened text with
  | nil => cases h
  | cons tick clock ih =>
    obtain ⟨⟨opened', text'⟩, start, h⟩ := of_bind_ok h
    refine skipStart_ok start ?_ ends
    rcases opened' with _ | ⟨_ | _, outer⟩
    · cases h
      rfl
    · obtain ⟨before, value, next, blank, rfl, wellformed, closes⟩ := ih h
      exact ⟨value, next, ⟨before, blank, rfl⟩, wellformed, closes⟩
    · obtain ⟨text'', key, h⟩ := of_bind_ok h
      obtain ⟨before, value, next, blank, rfl, wellformed, closes⟩ := ih h
      exact ⟨value, next, skipKey_ok key blank, wellformed, closes⟩

theorem skipValue_ok (h : skipValue text = .ok rest) (ends : EndsNumber rest) :
    ∃ before value, Blank before ∧ text = before ++ value ∧ Wellformed value rest := by
  obtain ⟨before, value, next, blank, same, wellformed, rfl⟩ := skipWithin_ok h ends
  exact ⟨before, value, blank, same, wellformed⟩

end River.Json
