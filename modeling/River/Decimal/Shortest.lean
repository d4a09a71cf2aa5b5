/-! The shortest decimal that reads back as a given binary number: of all decimals within the range
that rounds to the number, one with the fewest digits, and of those the nearest. -/
namespace River.Decimal

/-- The positive number `significand * 2 ^ exponent`. The range of reals that round to it reaches
half way to its neighbours; the lower neighbour of a power of two is nearer (`lowEdge`). -/
structure Binary where
  significand : Nat
  exponent : Int
  lowEdge : Bool

/-- `digits * 10 ^ exponent`. -/
structure Scaled where
  digits : Nat
  exponent : Int
  deriving DecidableEq

/-- `n / d * 2 ^ e` as a fraction. -/
def timesTwoPow (n : Nat) (e : Int) : Nat × Nat :=
  if 0 ≤ e then (n <<< e.toNat, 1) else (n, 1 <<< (-e).toNat)

def leadingExponent (n d : Nat) : Int :=
  if d ≤ n then ((Nat.toDigits 10 (n / d)).length : Int) - 1
  else
    let places := (Nat.toDigits 10 (d / n)).length
    if d ≤ n * Nat.pow 10 (places - 1) then 1 - (places : Int) else -(places : Int)

/-- The point of the grid of `10 ^ e` that is nearest to `n / d` of those between `low / d` and
`high / d`, whose ends count if `closed`; `none` if the grid has no point there. -/
def nearestOnGrid (n d low high : Nat) (closed : Bool) (e : Int) : Option Nat :=
  let up := Nat.pow 10 (-e).toNat
  let unit := d * Nat.pow 10 e.toNat
  let inside (k : Nat) : Bool :=
    if closed then low * up ≤ k * unit && k * unit ≤ high * up
    else low * up < k * unit && k * unit < high * up
  let k := n * up / unit
  let below := n * up - k * unit
  let above := (k + 1) * unit - n * up
  match inside k, inside (k + 1) with
  | false, false => none
  | true, false => some k
  | false, true => some (k + 1)
  | true, true => some (if below < above || (below == above && k % 2 == 0) then k else k + 1)

def stripZeros : Nat → Scaled → Scaled
  | 0, s => s
  | fuel + 1, s =>
    if s.digits % 10 == 0 && s.digits != 0 then stripZeros fuel ⟨s.digits / 10, s.exponent + 1⟩
    else s

/-- Seventeen digits always suffice. -/
def shortest (b : Binary) : Scaled :=
  let (n, d) := timesTwoPow (4 * b.significand) (b.exponent - 2)
  let (low, _) := timesTwoPow (4 * b.significand - if b.lowEdge then 1 else 2) (b.exponent - 2)
  let (high, _) := timesTwoPow (4 * b.significand + 2) (b.exponent - 2)
  let lead := leadingExponent n d
  let hit := (List.range 17).findSome? fun (count : Nat) =>
    let e := lead - count
    (nearestOnGrid n d low high (b.significand % 2 == 0) e).map fun k => Scaled.mk k e
  stripZeros 20 (hit.getD ⟨0, 0⟩)

/-- A double of 64 bits: a sign, eleven bits of exponent, fifty-two of fraction. -/
def binaryOfBits (bits : Nat) : Binary :=
  let fraction : Nat := bits % 0x10000000000000
  let biased : Nat := bits >>> 52 % 0x800
  if biased = 0 then ⟨fraction, -1074, false⟩
  else ⟨0x10000000000000 + fraction, (biased : Int) - 1075, fraction = 0 && biased != 1⟩

end River.Decimal
