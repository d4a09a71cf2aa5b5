import River.Proofs.Exchange.Frames

/-! Numbers where a file has its positions. Only a number of digits alone that fits a word is read,
and the position is at that byte or at the last one; with any other number the text is refused. -/
namespace River.Exchange

open River.Json

/-- The place in a text of what a path leads to. -/
def Path.Between (path : Path s) (before after : List Char) : Prop :=
  ∃ fill, path.Fills fill ∧ path.Frame fill before after

/-- What comes of a number where the path ends. -/
structure Path.Takes (path : Path (.record .file)) (number : List Char)
    (outcome : Except Report File) : Prop where
  accepted_iff : (∃ f, outcome = .ok f) ↔
    (∀ c ∈ number, c.isDigit = true) ∧ Nat.ofDigitChars 10 number 0 < wordLimit
  refused : (¬∃ f, outcome = .ok f) → Refused outcome
  position : ∀ f, outcome = .ok f → ∃ p : Pos, (∀ q, path.Holds f q ↔ q = p) ∧
    p.isPlaced = true ∧ p.offset? = some (min (Nat.ofDigitChars 10 number 0) Pos.last)
  written : ∀ f, outcome = .ok f → ∃ before after, path.Between before after ∧
    f.toJson.toList = before ++
      (Nat.toDigits 10 (min (Nat.ofDigitChars 10 number 0) Pos.last) ++ after)

section

variable {path : Path (.record .file)} {fill : Doc → Doc} {before after number : List Char}

theorem offset_of_fromJson (numeric : NumberText number) (frame : path.Frame fill before after)
    (accepted : File.fromJson (String.ofList (before ++ (number ++ after))) = .ok f) :
    ∃ n, n < wordLimit ∧ number = Nat.toDigits 10 n ∧ path.Holds f (.ofOffset n) := by
  obtain ⟨e, spells, means, -⟩ := fromJson_ok_iff.mp accepted
  rw [String.toList_ofList] at spells
  obtain ⟨d, found, spells⟩ := frame.finds (.number numeric frame.ends) spells
  obtain ⟨p, position, holds⟩ := found f means
  cases position with
  | unplaced =>
    obtain ⟨c, cs, rfl, first⟩ := numeric.starts
    generalize same : c :: cs ++ after = text at spells
    cases spells with
    | null =>
      obtain rfl := (List.cons.inj same).1
      exact absurd first (by decide)
  | @offset n fits =>
    generalize same : number ++ after = text at spells
    cases spells with
    | number => exact ⟨n, fits, List.append_cancel_right same, holds⟩

theorem fromJson_of_offset (fills : path.Fills fill) (frame : path.Frame fill before after)
    (conforms : Conforms (.record .file) (fill d)) (shallow : (fill d).nesting ≤ depthLimit)
    (fits : n < wordLimit) :
    ∃ f, File.fromJson (String.ofList (before ++ (Nat.toDigits 10 n ++ after))) = .ok f := by
  have position : Conforms .pos (.number n) := ⟨_, .offset fits⟩
  obtain ⟨f, means⟩ := fills.conforms conforms position
  refine ⟨f, fromJson_ok_iff.mpr ⟨fill (.number n), ?_, means, ?_⟩⟩
  · rw [String.toList_ofList]
    exact frame.spells (.number frame.ends)
  · exact Nat.le_trans (fills.nesting_le (Nat.zero_le _)) shallow

theorem offset_written (holds : path.Holds f (.ofOffset n)) :
    ∃ before after, path.Between before after ∧
      f.toJson.toList = before ++ (Nat.toDigits 10 (min n Pos.last) ++ after) := by
  have fits : Shape.Fits (.record .file) f := ⟨(f.name, f.body, f.comments, ()), rfl⟩
  obtain ⟨fill, fills, written⟩ := path.written holds fits
  have spells : SpellsText (fill (.number (min n Pos.last))) f.toJson.toList :=
    written ▸ spells_pretty f.json
  obtain ⟨before, body, after, split, spells, frame⟩ := fills.framing_text spells
  cases spells with
  | number => exact ⟨before, _, ⟨fill, fills, frame⟩, split⟩

end

/-- Whatever number stands for a position in a document that is read otherwise. -/
theorem fromJson_number {path : Path (.record .file)} {fill : Doc → Doc} {d : Doc} {f : File}
    {text : String} (fills : path.Fills fill) (spells : SpellsText (fill d) text.toList)
    (means : Denotes (.record .file) (fill d) f) (shallow : (fill d).nesting ≤ depthLimit) :
    ∃ before token after, text.toList = before ++ (token ++ after) ∧
      path.Between before after ∧ Spells d (token ++ after) after ∧
      ∀ number, NumberText number →
        path.Takes number (File.fromJson (String.ofList (before ++ (number ++ after)))) := by
  obtain ⟨before, body, after, split, spells, frame⟩ := fills.framing_text spells
  obtain ⟨token, rfl, -⟩ := spells.framed
  refine ⟨before, token, after, split, ⟨fill, fills, frame⟩, spells, fun number numeric => ?_⟩
  have offset (g) (accepted : File.fromJson (String.ofList (before ++ (number ++ after))) = .ok g) :=
    offset_of_fromJson numeric frame accepted
  constructor
  · constructor
    · rintro ⟨g, accepted⟩
      obtain ⟨n, fits, rfl, -⟩ := offset g accepted
      refine ⟨fun c member => Nat.isDigit_of_mem_toDigits (by decide) (by decide) member, ?_⟩
      rwa [Nat.ofDigitChars_ten_toDigits]
    · rintro ⟨digits, fits⟩
      have accepted := fromJson_of_offset fills frame ⟨f, means⟩ shallow fits
      rwa [numeric.toDigits digits] at accepted
  · exact fun unread => refused_of_not_read _ fun g accepted => unread ⟨g, accepted⟩
  · intro g accepted
    obtain ⟨n, fits, rfl, holds⟩ := offset g accepted
    rw [Nat.ofDigitChars_ten_toDigits]
    refine ⟨.ofOffset n, fun q => ⟨fun other => path.holds_unique other holds, ?_⟩, rfl, rfl⟩
    rintro rfl
    exact holds
  · intro g accepted
    obtain ⟨n, fits, rfl, holds⟩ := offset g accepted
    rw [Nat.ofDigitChars_ten_toDigits]
    exact offset_written holds

def lone : File := ⟨"f", [], [[⟨.unplaced, "#"⟩]]⟩

def firstStart : Path (.record .file) :=
  .field "comments" (s := .list (.list (.record .comment))) (by simp)
    (.item 0 (.item 0 (.field "start" (s := .pos) (by simp) .here)))

def loneDoc (start : Doc) : Doc :=
  .object [("name", .string "f"), ("body", .array []),
    ("comments", .array [.array [.object [("start", start), ("text", .string "#")]]])]

theorem firstStart_fills : firstStart.Fills loneDoc :=
  .member [("name", .string "f"), ("body", .array [])] []
    (.item [] [] rfl (.item [] [] rfl (.member [] [("text", .string "#")] .here)))

theorem fromJson_number_lone :
    firstStart.Fills loneDoc ∧ SpellsText (loneDoc .null) lone.toJson.toList ∧
    Denotes (.record .file) (loneDoc .null) lone ∧ (loneDoc .null).nesting ≤ depthLimit ∧
    NumberText "-0".toList ∧ NumberText "18446744073709551615".toList ∧
    ∃ before after, lone.toJson.toList = before ++ ("null".toList ++ after) ∧
      Refused (File.fromJson (String.ofList (before ++ ("-0".toList ++ after)))) ∧
      ∃ f p, File.fromJson (String.ofList (before ++ ("18446744073709551615".toList ++ after))) =
        .ok f ∧ firstStart.Holds f p ∧ p.offset? = some Pos.last := by
  have spells : SpellsText (loneDoc .null) lone.toJson.toList := spells_pretty lone.json
  have means : Denotes (.record .file) (loneDoc .null) lone :=
    denotes_json (.record .file) lone ⟨("f", [], lone.comments, ()), rfl⟩
  have shallow : (loneDoc .null).nesting ≤ depthLimit := by decide
  have whole : Whole ['0'] := ⟨⟨by simp, by simp⟩, fun _ => rfl⟩
  have signed : ['-'] ∈ [[], ['-']] := by simp
  have zero : NumberText "-0".toList := .parts signed whole .none .none
  have great : NumberText "18446744073709551615".toList := numberText_toDigits 0xffffffffffffffff
  obtain ⟨before, token, after, split, -, null, takes⟩ :=
    fromJson_number firstStart_fills spells means shallow
  refine ⟨firstStart_fills, spells, means, shallow, zero, great, before, after, ?_, ?_, ?_⟩
  · generalize token ++ after = body at split null
    cases null with
    | null => exact split
  · refine (takes _ zero).refused fun accepted => ?_
    have digits := ((takes _ zero).accepted_iff.mp accepted).1
    exact absurd (digits '-' (by decide)) (by decide)
  · have digits := List.all_eq_true.mp (show "18446744073709551615".toList.all Char.isDigit by decide)
    obtain ⟨f, accepted⟩ := (takes _ great).accepted_iff.mpr ⟨digits, by decide⟩
    obtain ⟨p, holds, placed, offset⟩ := (takes _ great).position f accepted
    exact ⟨f, p, accepted, (holds p).mpr rfl, offset.trans (by decide)⟩

end River.Exchange
