import River.Node.Extent

/-! Moving positions on. Everything follows from what the steps do to the rank of a position: it grows
by their number and stops at the greatest rank, and a position without a byte stays at rank zero. -/
namespace River
namespace Pos

variable (p q : Pos)

theorem isPlaced_iff : p.isPlaced = true ↔ 0 < p.rank := by
  cases p <;> simp [isPlaced]

theorem rank_eq_of_offset? (h : p.offset? = some n) : p.rank = n + 1 := by
  cases p <;> cases h
  rfl

theorem isPlaced_advance (n : Nat) : (p.advance n).isPlaced = p.isPlaced := by
  cases p <;> rfl

theorem ofOffset_offset? (h : p.offset? = some n) : ofOffset n = p := by
  apply rank_injective
  have bound := p.rank_le
  rw [rank_eq_of_offset? p h] at bound ⊢
  rw [rank_ofOffset]
  omega

/-- Nothing moves but what has a byte and is not at the last one. -/
theorem advance_eq_iff (n : Nat) :
    p.advance n = p ↔ n = 0 ∨ p = unplaced ∨ p = ofOffset last := by
  cases p with
  | unplaced => simp
  | byte m le_last =>
    simp only [advance, ofOffset, byte.injEq, reduceCtorEq, false_or, Nat.min_self]
    omega

/-- Two moves are one move by their sum. A sum beyond the greatest count goes as far as that one. -/
theorem advance_advance (a b : Nat) :
    (p.advance a).advance b = p.advance (min (a + b) (last + 1)) := by
  apply rank_injective
  simp only [rank_advance, isPlaced_advance]
  split <;> omega

theorem advance_comm (a b : Nat) : (p.advance a).advance b = (p.advance b).advance a := by
  rw [advance_advance, advance_advance, Nat.add_comm]

theorem advance_ofOffset (n a : Nat) :
    (ofOffset n).advance a = ofOffset (min (n + a) (last + 1)) := by
  apply rank_injective
  rw [rank_advance, isPlaced_ofOffset, if_pos rfl, rank_ofOffset, rank_ofOffset]
  omega

variable {p q}

theorem advance_mono (starts : p ≤ q) (steps : a ≤ b) : p.advance a ≤ q.advance b := by
  rw [le_iff] at starts ⊢
  rw [rank_advance, rank_advance]
  split
  · next placed =>
    have placed' : q.isPlaced = true :=
      q.isPlaced_iff.mpr (Nat.lt_of_lt_of_le (p.isPlaced_iff.mp placed) starts)
    rw [if_pos placed']
    omega
  · exact Nat.zero_le _

theorem unplaced_lt_iff : unplaced < q ↔ q.isPlaced = true := by
  rw [lt_iff, rank_unplaced, isPlaced_iff]

theorem le_iff_offset (left : p.offset? = some m) (right : q.offset? = some n) :
    p ≤ q ↔ m ≤ n := by
  rw [le_iff, rank_eq_of_offset? p left, rank_eq_of_offset? q right]
  omega

end Pos

/-- How a leaf with a text ends: not before it starts, and later unless there is no room for that. -/
structure Node.EndsAfter (n : Node) (text : String) : Prop where
  first_le_last : n.first ≤ n.last
  last_eq_first_iff : n.last = n.first ↔
    text.utf8ByteSize ≤ 1 ∨ n.first = .unplaced ∨ n.first = .ofOffset Pos.last

theorem Node.endsAfter_textEnd {n : Node} (ends : n.last = textEnd n.first text) :
    n.EndsAfter text := by
  constructor
  · rw [ends]
    exact Pos.le_advance n.first _
  · rw [ends, textEnd, Pos.advance_eq_iff, Nat.sub_eq_zero_iff_le]

namespace Pos

/-- Counts beyond the greatest offset make no difference, and no count leads out of the text. -/
theorem advance_lawful :
    (∀ n : Nat, (ofOffset n).isPlaced = true ∧ (ofOffset n).offset? = some (min n last)) ∧
    (∀ p : Pos, p.isPlaced = true → ∃ n, p.offset? = some n ∧ ofOffset n = p) ∧
    (∀ (p : Pos) (a : Nat), (p.advance a).isPlaced = p.isPlaced ∧ p ≤ p.advance a) ∧
    (∀ (p : Pos) (a b : Nat), (p.advance a).advance b = p.advance (min (a + b) (last + 1)) ∧
      (p.advance a).advance b = (p.advance b).advance a) ∧
    (∀ n a : Nat, (ofOffset n).advance a = ofOffset (min (n + a) (last + 1))) ∧
    (∀ (p q : Pos) (a b : Nat), p ≤ q → a ≤ b → p.advance a ≤ q.advance b) ∧
    (∀ q : Pos, unplaced < q ↔ q.isPlaced = true) ∧
    (∀ (p q : Pos) (m n : Nat), p.offset? = some m → q.offset? = some n → (p ≤ q ↔ m ≤ n)) ∧
    (∀ id : Ident, (Node.ident id).EndsAfter id.name) ∧
    (∀ kind pos text, (Node.expr (.literal kind pos text)).EndsAfter text) ∧
    (∀ c : Comment, (Node.comment c).EndsAfter c.text) := by
  refine ⟨fun n => ⟨rfl, rfl⟩, fun p placed => ?_, fun p a => ⟨p.isPlaced_advance a, p.le_advance a⟩,
    fun p a b => ⟨p.advance_advance a b, p.advance_comm a b⟩, advance_ofOffset,
    fun p q a b => advance_mono, fun q => unplaced_lt_iff, fun p q m n => le_iff_offset,
    fun id => Node.endsAfter_textEnd rfl, fun kind pos text => Node.endsAfter_textEnd rfl,
    fun c => Node.endsAfter_textEnd rfl⟩
  cases p with
  | unplaced => cases placed
  | byte n le_last => exact ⟨n, rfl, ofOffset_offset? _ rfl⟩

theorem advance_at_last :
    ((ofOffset last).isPlaced = true ∧
      ∃ n, (ofOffset last).offset? = some n ∧ ofOffset n = ofOffset last) ∧
    (ofOffset 10 ≤ ofOffset last ∧ 3 ≤ last + 1 ∧
      (ofOffset 10).advance 3 ≤ (ofOffset last).advance (last + 1)) ∧
    ((ofOffset 10).offset? = some 10 ∧ (ofOffset last).offset? = some last ∧
      (ofOffset 10 ≤ ofOffset last ↔ 10 ≤ last)) := by
  obtain ⟨-, placed, -, -, -, mono, -, order, -⟩ := advance_lawful
  exact ⟨⟨rfl, placed _ rfl⟩, ⟨by decide, by decide, mono _ _ _ _ (by decide) (by decide)⟩,
    ⟨rfl, rfl, order _ _ _ _ rfl rfl⟩⟩

end Pos
end River
