import River.Exchange
import River.Proofs.Exchange.Accepted

/-! A text that is no record is refused with a place: every failure inside of a record gets one from
the record's end, and a head that fails has one of its own. -/
namespace River.Json

def Placed : Except Failure α → Prop
  | .error (.loose _ _) => False
  | _ => True

theorem placed_bind {outcome : Except Failure α} {next : α → Except Failure β}
    (first : Placed outcome) (second : ∀ a, Placed (next a)) : Placed (outcome >>= next) := by
  match outcome, first with
  | .error (.placed _ _), _ => trivial
  | .ok a, _ => exact second a

theorem placed_word (letters text : List Char) : Placed (word letters text) := by
  induction letters generalizing text with
  | nil => trivial
  | cons w ws ih =>
    cases text with
    | nil => trivial
    | cons c text =>
      unfold word
      split
      · exact ih text
      · trivial

theorem placed_hexUnit (text : List Char) : Placed (hexUnit text) := by
  unfold hexUnit
  dsimp only
  split
  · split
    · trivial
    · split <;> trivial
  · split <;> trivial

theorem placed_escapedUnit (text : List Char) : Placed (escapedUnit text) := by
  unfold escapedUnit
  split
  case h_10 => exact placed_hexUnit _
  all_goals trivial

theorem placed_pairMark (c : Char) (text : List Char) : Placed (pairMark c text) := by
  unfold pairMark
  split
  · trivial
  · split <;> trivial

theorem placed_escapedChar (text : List Char) : Placed (escapedChar text) := by
  refine placed_bind (placed_escapedUnit text) fun (n, rest) => ?_
  dsimp only
  split
  · trivial
  · split
    · refine placed_bind (placed_pairMark _ _) fun rest => placed_bind (placed_pairMark _ _) fun rest =>
        placed_bind (placed_hexUnit _) fun (m, rest) => ?_
      dsimp only
      split <;> trivial
    · trivial

theorem placed_stringRest (clock text : List Char) : Placed (stringRest clock text) := by
  induction clock generalizing text with
  | nil => trivial
  | cons tick clock ih =>
    cases text with
    | nil => trivial
    | cons c text =>
      unfold stringRest
      split
      · trivial
      · split
        · exact placed_bind (placed_escapedChar text) fun next =>
            placed_bind (ih next.2) fun _ => trivial
        · split
          · trivial
          · exact placed_bind (ih text) fun _ => trivial

theorem placed_numeral (atEnd : Cause) (text : List Char) : Placed (numeral atEnd text) := by
  have whole (text : List Char) : Placed (wholePart atEnd text) := by
    unfold wholePart
    split
    · trivial
    · split
      · split <;> trivial
      · trivial
    · split <;> trivial
  have fraction (text : List Char) : Placed (fractionPart atEnd text) := by
    unfold fractionPart
    split
    · split <;> trivial
    · trivial
  have digits (text : List Char) : Placed (exponentDigits atEnd text) := by
    unfold exponentDigits
    dsimp only
    split <;> trivial
  have exponent (text : List Char) : Placed (exponentPart atEnd text) := by
    unfold exponentPart
    split
    · exact digits _
    · exact digits _
    · trivial
  exact placed_bind (whole _) fun (_, rest) => placed_bind (fraction rest) fun (_, rest) =>
    placed_bind (exponent rest) fun _ => trivial

theorem placed_readNumber (text : List Char) : Placed (readNumber text) := by
  refine placed_bind (placed_numeral _ text) fun (n, rest) => ?_
  dsimp only
  split <;> trivial

end River.Json

namespace River.Exchange

open River.Json

theorem placed_head (text : List Char) : Placed (head text) := by
  unfold head
  split
  · trivial
  · exact placed_bind (placed_word _ _) fun _ => trivial
  · exact placed_bind (placed_word _ _) fun _ => trivial
  · exact placed_bind (placed_word _ _) fun _ => trivial
  · exact placed_bind (placed_stringRest _ _) fun _ => trivial
  · trivial
  · trivial
  · split
    · exact placed_bind (placed_readNumber _) fun _ => trivial
    · trivial

theorem placed_closing (close : List Char → Option Cause × List Char)
    (outcome : Except Failure (α × List Char)) : Placed (closing close outcome) := by
  unfold closing
  split
  · split <;> trivial
  · trivial
  · trivial

theorem placed_record (inner : Option ((s : Shape) → Reader s.Content)) (r : Record)
    (text : List Char) : Placed (readWith inner (.record r) text) := by
  refine placed_bind (placed_head text) fun (seen, rest) => ?_
  dsimp only
  split
  · exact placed_bind (placed_closing _ _) fun _ => trivial
  · exact placed_bind (placed_closing _ _) fun _ => trivial
  · trivial
  · trivial
  · trivial

theorem placed_readAll (r : Record) (text : List Char) : Placed (readAll (.record r) text) := by
  refine placed_bind (placed_record _ r text) fun (v, rest) => ?_
  dsimp only
  split <;> trivial

/-- A report of a text that cannot be read, with a note that tells the place. -/
def Refused (outcome : Except Report α) : Prop :=
  ∃ r line column, outcome = .error r ∧ r.fault = .serialization ∧
    r.note = some ("JSON input line " ++ Nat.repr line ++ ", column " ++ Nat.repr column)

theorem refused_of_not_read (text : String) (unread : ∀ f, File.fromJson text ≠ .ok f) :
    Refused (File.fromJson text) := by
  have placed := placed_readAll .file text.toList
  match outcome : readAll (.record .file) text.toList, placed with
  | .ok f, _ => exact absurd (File.fromJson_eq_ok.mpr outcome) (unread f)
  | .error (.placed cause left), _ =>
    simp only [File.fromJson, fromText, outcome]
    exact ⟨_, _, _, rfl, rfl, rfl⟩

/-- The files that are read, and their documents. -/
theorem fromJson_ok_iff : File.fromJson text = .ok f ↔
    ∃ d, SpellsText d text.toList ∧ Denotes (.record .file) d f ∧ d.nesting ≤ depthLimit :=
  File.fromJson_eq_ok.trans readAll_ok_iff

end River.Exchange
