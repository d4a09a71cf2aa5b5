import River.Proofs.Exchange.Refused
import River.Proofs.Json.Within
import River.Proofs.Text.Lines

/-! What is said of a text that is no file points into the text: readers never go beyond its end, so
the place of a failure is a byte of it or just after the last one. -/
namespace River.Exchange

open River.Json
open Text (byteLength LineFrom breaksBefore)

section

variable {text : List Char} {bound : Nat} (enough : byteLength text ≤ bound)
include enough

theorem within_head : Within bound Prod.snd (head text) := by
  unfold head
  split
  · exact .failHere (Nat.zero_le bound)
  · next skipped =>
    exact (within_word (tail_le (within_skipBlanks enough skipped)) _).bind fun _ enough => enough
  · next skipped =>
    exact (within_word (tail_le (within_skipBlanks enough skipped)) _).bind fun _ enough => enough
  · next skipped =>
    exact (within_word (tail_le (within_skipBlanks enough skipped)) _).bind fun _ enough => enough
  · next skipped =>
    exact (within_stringRest (tail_le (within_skipBlanks enough skipped)) _).bind
      fun _ enough => enough
  · next skipped => exact within_skipBlanks enough skipped
  · next skipped => exact within_skipBlanks enough skipped
  · next skipped =>
    have enough := within_skipBlanks enough skipped
    split
    · exact (within_readNumber enough).bind fun _ enough => enough
    · exact .failAfterNext enough

theorem within_readPos : Within bound Prod.snd (readPos text) := by
  refine (within_head enough).bind fun (seen, rest) enough => ?_
  cases seen with
  | number n => cases n <;> exact enough
  | _ => exact enough

theorem within_readText : Within bound Prod.snd (readText text) := by
  refine (within_head enough).bind fun (seen, rest) enough => ?_
  cases seen <;> exact enough

theorem within_readFlag : Within bound Prod.snd (readFlag text) := by
  refine (within_head enough).bind fun (seen, rest) enough => ?_
  cases seen <;> exact enough

theorem within_readLabel : Within bound Prod.snd (readLabel text) := by
  refine (within_head enough).bind fun (seen, rest) enough => ?_
  cases seen <;> exact enough

theorem within_readUnit : Within bound Prod.snd (readUnit text) := by
  refine (within_head enough).bind fun (seen, rest) enough => ?_
  cases seen <;> exact enough

theorem within_listEnd (ended : listEnd text = (cause, rest)) : byteLength rest ≤ bound := by
  unfold listEnd at ended
  split at ended
  · cases ended
    exact Nat.zero_le bound
  · next skipped =>
    cases ended
    exact tail_le (within_skipBlanks enough skipped)
  · next skipped =>
    have enough := tail_le (within_skipBlanks enough skipped)
    split at ended
    · next skipped =>
      cases ended
      exact within_skipBlanks enough skipped
    · cases ended
      exact within_skipBlanks enough rfl
  · cases ended
    exact within_skipBlanks enough rfl

theorem within_objectEnd (ended : objectEnd text = (cause, rest)) : byteLength rest ≤ bound := by
  unfold objectEnd at ended
  split at ended
  · cases ended
    exact Nat.zero_le bound
  · next skipped =>
    cases ended
    exact tail_le (within_skipBlanks enough skipped)
  · next skipped =>
    cases ended
    exact within_skipBlanks enough skipped
  · cases ended
    exact within_skipBlanks enough rfl

theorem within_nextItem (first : Bool) : Within bound Prod.snd (nextItem first text) := by
  unfold nextItem
  split
  · exact .failHere (Nat.zero_le bound)
  · next skipped => exact within_skipBlanks enough skipped
  · next skipped =>
    have enough := within_skipBlanks enough skipped
    split
    · exact enough
    · split
      · split
        · exact .failHere (Nat.zero_le bound)
        · next skipped => exact .failAfterNext (within_skipBlanks (tail_le enough) skipped)
        · exact within_skipBlanks (tail_le enough) rfl
      · exact .failAfterNext enough

theorem within_nextKey (first : Bool) : Within bound Prod.snd (nextKey first text) := by
  unfold nextKey
  split
  · exact .failHere (Nat.zero_le bound)
  · next skipped => exact within_skipBlanks enough skipped
  · next skipped =>
    have enough := within_skipBlanks enough skipped
    split
    · split
      · exact tail_le enough
      · exact .failAfterNext enough
    · split
      · split
        · exact .failHere (Nat.zero_le bound)
        · next skipped => exact tail_le (within_skipBlanks (tail_le enough) skipped)
        · next skipped => exact .failAfterNext (within_skipBlanks (tail_le enough) skipped)
        · exact .failAfterNext (within_skipBlanks (tail_le enough) rfl)
      · exact .failAfterNext enough

theorem within_findVariant (variants : List (Variant α)) (name : String) :
    Within bound (fun _ => text) (findVariant variants name text) := by
  unfold findVariant
  split
  · exact enough
  · exact .failHere enough

theorem within_bareVariant (variant : Variant α) :
    Within bound Prod.snd (bareVariant text variant) := by
  unfold bareVariant
  split
  · exact enough
  · exact .failLoose enough

end

/-- The end of a value is looked for where its inside was left, also after a failure. -/
theorem within_closing {close : List Char → Option Cause × List Char}
    {outcome : Except Failure (α × List Char)} (inside : Within bound Prod.snd outcome)
    (stays : ∀ text cause rest, byteLength text ≤ bound → close text = (cause, rest) →
      byteLength rest ≤ bound) : Within bound Prod.snd (closing close outcome) := by
  match outcome, inside with
  | .error (.placed _ _), inside => exact inside
  | .error (.loose _ text), inside => exact .failHere (stays text _ _ inside rfl)
  | .ok (a, text), inside =>
    rw [closing]
    split
    · next ended => exact stays _ _ _ inside ended
    · next ended => exact .failAfterNext (stays _ _ _ inside ended)

/-- A reader that stays in its text. -/
def Stays (bound : Nat) (read : Reader α) : Prop :=
  ∀ text, byteLength text ≤ bound → Within bound Prod.snd (read text)

theorem within_items {item : Reader α} (each : Stays bound item) (clock : List Char)
    (first : Bool) : Stays bound (items item clock first) := by
  induction clock generalizing first with
  | nil => exact fun text _ => .failHere (Nat.zero_le bound)
  | cons tick clock ih =>
    intro text enough
    refine (within_nextItem enough first).bind fun (more, rest) enough => ?_
    cases more with
    | false => exact enough
    | true =>
      exact (each rest enough).bind fun (a, rest) enough =>
        (ih false rest enough).bind fun _ enough => enough

section Records

variable {read : (s : Shape) → Reader s.Content} (each : ∀ s, Stays bound (read s))
include each

theorem within_elements (expected : String) (fields : Fields) (count : Nat) :
    Stays bound (elements read expected fields count) := by
  induction fields generalizing count with
  | nil => exact fun text enough => enough
  | cons field fields ih =>
    intro text enough
    refine (within_nextItem enough _).bind fun (more, rest) enough => ?_
    cases more with
    | false => exact .failLoose enough
    | true =>
      exact (each field.2 rest enough).bind fun (v, rest) enough =>
        (ih (count + 1) rest enough).bind fun _ enough => enough

theorem within_fill? (fields : Fields) (slots : Slots fields) (enough : byteLength text ≤ bound)
    {outcome : Except Failure (Slots fields × List Char)}
    (found : slots.fill? read key fields text = some outcome) : Within bound Prod.snd outcome := by
  induction fields with
  | nil => cases found
  | cons field fields ih =>
    obtain ⟨name, s⟩ := field
    obtain ⟨slot, slots⟩ := slots
    unfold Slots.fill? at found
    split at found
    · cases found
      cases slot with
      | some _ => exact .failLoose enough
      | none =>
        exact (within_colon enough).bind fun rest enough =>
          (each s rest enough).bind fun _ enough => enough
    · obtain ⟨filled, found', rfl⟩ := Option.map_eq_some_iff.mp found
      exact (ih slots found').bind fun _ enough => enough

theorem within_members (fields : Fields) (clock : List Char) (first : Bool) (slots : Slots fields) :
    Stays bound (members read fields clock first slots) := by
  induction clock generalizing first slots with
  | nil => exact fun text _ => .failHere (Nat.zero_le bound)
  | cons tick clock ih =>
    intro text enough
    refine (within_nextKey enough first).bind fun (more, rest) enough => ?_
    cases more with
    | false => exact enough
    | true =>
      refine (within_stringRest enough _).bind fun (key, rest) enough => ?_
      dsimp only
      split
      · next found =>
        exact (within_fill? each fields slots enough found).bind fun (slots, rest) enough =>
          ih false slots rest enough
      · exact (within_colon enough).bind fun rest enough =>
          (within_skipWithin enough _ _).bind fun rest enough => ih false slots rest enough

theorem within_objectRow (fields : Fields) : Stays bound (objectRow read fields) := by
  intro text enough
  refine (within_members each fields text true _ text enough).bind fun (slots, rest) enough => ?_
  dsimp only
  split
  · exact enough
  · exact .failLoose enough

theorem within_taggedVariant (variants : List (Variant α)) :
    Stays bound (taggedVariant read variants) := by
  intro text enough
  unfold taggedVariant
  split
  · exact .failHere (Nat.zero_le bound)
  · next skipped => exact .failAfterNext (within_skipBlanks enough skipped)
  · next skipped =>
    refine (within_stringRest (tail_le (within_skipBlanks enough skipped)) _).bind
      fun (key, rest) enough => ?_
    refine (within_findVariant enough variants (String.ofList key)).bind fun variant enough => ?_
    refine (within_colon enough).bind fun rest enough => ?_
    refine (each variant.payload rest enough).bind fun (v, rest) enough => ?_
    dsimp only
    split
    · exact .failHere (Nat.zero_le bound)
    · next skipped => exact tail_le (within_skipBlanks enough skipped)
    · exact .failHere (within_skipBlanks enough rfl)
  · exact .failAfterNext (within_skipBlanks enough rfl)

end Records

/-- What may stand in brackets, if any may open. -/
def StaysInside (bound : Nat) (inner : Option ((s : Shape) → Reader s.Content)) : Prop :=
  ∀ read ∈ inner, ∀ s, Stays bound (read s)

variable {inner : Option ((s : Shape) → Reader s.Content)} (inside : StaysInside bound inner)
include inside

theorem within_list (item : Shape) : Stays bound (readWith.list inner item) := by
  intro text enough
  refine (within_head enough).bind fun (seen, rest) enough => ?_
  dsimp only at enough ⊢
  split
  · next read =>
    have enough := Nat.le_trans (byteLength_drop_le 1 rest) enough
    exact within_closing (within_items (inside read rfl item) _ true _ enough)
      fun _ _ _ enough ended => within_listEnd enough ended
  · exact .failAfterNext enough
  · exact .failHere enough

theorem within_record (r : Record) : Stays bound (readWith inner (.record r)) := by
  intro text enough
  refine (within_head enough).bind fun (seen, rest) enough => ?_
  dsimp only at enough ⊢
  have enough' := Nat.le_trans (byteLength_drop_le 1 rest) enough
  split
  · next read =>
    exact (within_closing (within_elements (inside read rfl) _ r.fields 0 _ enough')
      fun _ _ _ enough ended => within_listEnd enough ended).bind fun _ enough => enough
  · next read =>
    exact (within_closing (within_objectRow (inside read rfl) r.fields _ enough')
      fun _ _ _ enough ended => within_objectEnd enough ended).bind fun _ enough => enough
  · exact .failAfterNext enough
  · exact .failAfterNext enough
  · exact .failHere enough

theorem within_choice (c : Choice) : Stays bound (readWith inner (.choice c)) := by
  intro text enough
  rw [readWith]
  split
  · exact .failHere (Nat.zero_le bound)
  · next skipped =>
    refine (within_stringRest (tail_le (within_skipBlanks enough skipped)) _).bind
      fun named enough => ?_
    exact (within_findVariant enough _ _).bind fun variant enough =>
      within_bareVariant enough variant
  · next skipped =>
    have enough := within_skipBlanks enough skipped
    split
    · next read => exact within_taggedVariant (inside read rfl) _ _ (tail_le enough)
    · exact .failAfterNext enough
  · exact .failAfterNext (within_skipBlanks enough rfl)

theorem within_readWith (s : Shape) : Stays bound (readWith inner s) := by
  intro text enough
  cases s with
  | pos => exact within_readPos enough
  | text => exact within_readText enough
  | flag => exact within_readFlag enough
  | label => exact within_readLabel enough
  | unit => exact within_readUnit enough
  | blockName =>
    refine (within_list inside .text text enough).bind fun (parts, rest) enough => ?_
    cases parts with
    | nil => exact .failLoose enough
    | cons part parts => exact enough
  | list item => exact within_list inside item text enough
  | record r => exact within_record inside r text enough
  | choice c => exact within_choice inside c text enough

omit inside

theorem within_read (depth : Nat) (s : Shape) : Stays bound (read depth s) := by
  induction depth generalizing s with
  | zero =>
    have closed : StaysInside bound none := nofun
    exact within_readWith closed s
  | succ depth ih =>
    have opened : StaysInside bound (some (read depth)) := fun | _, rfl => ih
    exact within_readWith opened s

theorem within_readAll (s : Shape) (text : List Char) :
    Within (byteLength text) (fun _ => []) (readAll s text) := by
  refine (within_read depthLimit s text (Nat.le_refl _)).bind fun (v, rest) enough => ?_
  dsimp only
  split
  · exact Nat.zero_le _
  · exact .failAfterNext (within_skipBlanks enough rfl)

/-- A text that is no file is refused at a byte of the text or at its end, and the report tells the
line of that byte and how far it is from the start of the line, in the message and in the note. -/
theorem fromJson_error (text : String) (r : Report) (refused : File.fromJson text = .error r) :
    r.fault = .serialization ∧ r.help = none ∧ ∃ k start cause,
      k ≤ text.utf8ByteSize ∧ LineFrom (Text.utf8 text.toList) k start ∧
      readAll (.record .file) text.toList = .error (.placed cause (text.utf8ByteSize - k)) ∧
      r.message = cause.message ++ " at line " ++
        (breaksBefore (Text.utf8 text.toList) k + 1).repr ++ " column " ++ (k - start).repr ∧
      r.note = some ("JSON input line " ++ (breaksBefore (Text.utf8 text.toList) k + 1).repr ++
        ", column " ++ (k - start).repr) := by
  have placed := placed_readAll .file text.toList
  have within := within_readAll (.record .file) text.toList
  rw [← Text.utf8ByteSize_eq] at within
  match outcome : readAll (.record .file) text.toList, placed, within with
  | .ok f, _, _ =>
    rw [File.fromJson_eq_ok.mpr outcome] at refused
    cases refused
  | .error (.placed cause left), _, within =>
    have le : text.utf8ByteSize - left ≤ text.utf8ByteSize := Nat.sub_le _ left
    obtain ⟨start, line, since⟩ :=
      Text.lineFrom_sinceBreak (Nat.le_trans le (Nat.le_of_eq (Text.length_utf8_toList text).symm))
    have place : lineColumn text.toList (byteLength text.toList - left) =
        (breaksBefore (Text.utf8 text.toList) (text.utf8ByteSize - left) + 1,
          text.utf8ByteSize - left - start) := by
      rw [lineColumn, ← Text.utf8ByteSize_eq, since]
    simp only [File.fromJson, fromText, outcome, Except.mapError, Failure.complaint,
      place] at refused
    cases refused
    refine ⟨rfl, rfl, _, start, cause, le, line, ?_, rfl, rfl⟩
    rw [Nat.sub_sub_self within]

/-- A number stands where a list of comments is asked for, on the second line. -/
def numberForGroup : String := "[\"é\",[],\n [7]]"

def numberForGroupReport : Report where
  fault := .serialization
  message := "invalid type: integer `7`, expected a sequence at line 2 column 3"
  note := some "JSON input line 2, column 3"

theorem fromJson_numberForGroup : File.fromJson numberForGroup = .error numberForGroupReport ∧
    ∃ k start, k ≤ numberForGroup.utf8ByteSize ∧
      LineFrom (Text.utf8 numberForGroup.toList) k start ∧
      numberForGroupReport.note = some ("JSON input line " ++
        (breaksBefore (Text.utf8 numberForGroup.toList) k + 1).repr ++
        ", column " ++ (k - start).repr) := by
  have refused : File.fromJson numberForGroup = .error numberForGroupReport := by decide +kernel
  obtain ⟨-, -, k, start, cause, le, line, -, -, note⟩ := fromJson_error _ _ refused
  exact ⟨refused, k, start, le, line, note⟩

end River.Exchange
