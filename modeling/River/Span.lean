import River.Pos

/-! The bytes that a node covers. -/
namespace River

/-- The first and the last byte, both included. -/
structure Span where
  first : Pos
  last : Pos
  deriving DecidableEq

namespace Span

def nowhere : Span := ⟨.unplaced, .unplaced⟩

instance : Inhabited Span := ⟨nowhere⟩

def isPlaced (s : Span) : Bool := s.first.isPlaced && s.last.isPlaced

/-- A span with a missing end contains nothing, and no span contains a missing position. -/
def contains (s : Span) (p : Pos) : Bool :=
  s.isPlaced && p.isPlaced && decide (s.first ≤ p) && decide (p ≤ s.last)

/-- A span without ends is a single dash; otherwise a missing end is written as its own dash. -/
def text (s : Span) : String :=
  if !s.first.isPlaced && !s.last.isPlaced then "-" else s.first.text ++ "-" ++ s.last.text

end Span
end River
