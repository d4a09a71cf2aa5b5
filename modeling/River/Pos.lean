/-! Byte positions in a source text. Offsets stop at the greatest one a 64-bit text can have, so
advancing a position never wraps around and never loses it. -/
namespace River

/-- The greatest offset, `2 ^ 64 - 2`. -/
def Pos.last : Nat := 0xfffffffffffffffe

/-- A node that was not read from a text has no position. -/
inductive Pos where
  | unplaced
  | byte (offset : Nat) (le_last : offset ≤ Pos.last)
  deriving DecidableEq

namespace Pos

instance : Inhabited Pos := ⟨.unplaced⟩

/-- Offsets beyond the last one are the last one. -/
def ofOffset (n : Nat) : Pos := .byte (min n last) (Nat.min_le_right n last)

def offset? : Pos → Option Nat
  | .unplaced => none
  | .byte offset _ => some offset

def isPlaced : Pos → Bool
  | .unplaced => false
  | .byte _ _ => true

/-- Moves `n` bytes on; what has no position keeps none. -/
def advance : Pos → Nat → Pos
  | .unplaced, _ => .unplaced
  | .byte offset _, n => ofOffset (offset + n)

/-- The position as a 64-bit word: the offset plus one, and zero for none. `ofOffset` and `advance`
are additions on this word that stop at the greatest one, and its order is that of positions. -/
def rank : Pos → Nat
  | .unplaced => 0
  | .byte offset _ => offset + 1

@[simp] theorem rank_unplaced : unplaced.rank = 0 := rfl
@[simp] theorem rank_byte (n h) : (byte n h).rank = n + 1 := rfl

theorem rank_le (p : Pos) : p.rank ≤ last + 1 := by
  cases p with
  | unplaced => exact Nat.zero_le _
  | byte n le_last => exact Nat.succ_le_succ le_last

theorem rank_injective {p q : Pos} (h : p.rank = q.rank) : p = q := by
  cases p <;> cases q <;> simp_all

theorem rank_ofOffset (n : Nat) : (ofOffset n).rank = min (n + 1) (last + 1) := by
  rw [ofOffset, rank_byte]
  omega

theorem rank_advance (p : Pos) (n : Nat) :
    (p.advance n).rank = if p.isPlaced then min (p.rank + n) (last + 1) else 0 := by
  cases p with
  | unplaced => rfl
  | byte m le_last =>
    rw [advance, rank_ofOffset, isPlaced, if_pos rfl, rank_byte]
    omega

instance : LE Pos := ⟨fun p q => p.rank ≤ q.rank⟩
instance : LT Pos := ⟨fun p q => p.rank < q.rank⟩
instance (p q : Pos) : Decidable (p ≤ q) := inferInstanceAs (Decidable (p.rank ≤ q.rank))
instance (p q : Pos) : Decidable (p < q) := inferInstanceAs (Decidable (p.rank < q.rank))
instance : Ord Pos := ⟨fun p q => compare p.rank q.rank⟩
instance : Min Pos := ⟨fun p q => if p ≤ q then p else q⟩
instance : Max Pos := ⟨fun p q => if p ≤ q then q else p⟩

def text : Pos → String
  | .unplaced => "-"
  | .byte offset _ => offset.repr

theorem le_iff {p q : Pos} : p ≤ q ↔ p.rank ≤ q.rank := Iff.rfl
theorem lt_iff {p q : Pos} : p < q ↔ p.rank < q.rank := Iff.rfl

@[simp] theorem isPlaced_ofOffset (n : Nat) : (ofOffset n).isPlaced = true := rfl
@[simp] theorem offset?_ofOffset (n : Nat) : (ofOffset n).offset? = some (min n last) := rfl
@[simp] theorem advance_unplaced (n : Nat) : unplaced.advance n = unplaced := rfl

theorem le_advance (p : Pos) (n : Nat) : p ≤ p.advance n := by
  cases p with
  | unplaced => exact Nat.le_refl 0
  | byte offset bound =>
    have : offset ≤ min (offset + n) last := by omega
    exact Nat.succ_le_succ this

end Pos
end River
