import River.Decimal.Shortest

/-! How a decimal is written: positional if its leading digit is near the point, otherwise with an
exponent. -/
namespace River.Decimal

/-- The least and the greatest exponent of a leading digit for which notation is positional. -/
structure Format where
  positionalFrom : Int
  positionalTo : Int

/-- At least one digit stands on either side of the point. -/
def positional (digits : List Char) (lead : Int) : List Char :=
  if lead < 0 then
    ['0', '.'] ++ List.replicate ((-lead).toNat - 1) '0' ++ digits
  else
    let whole := lead.toNat + 1
    let fraction := digits.drop whole
    digits.take whole ++ List.replicate (whole - digits.length) '0' ++ ['.'] ++
      if fraction.isEmpty then ['0'] else fraction

/-- One digit before the point; the sign of the exponent is always written. -/
def exponential (digits : List Char) (lead : Int) : List Char :=
  digits.take 1 ++ (if digits.length ≤ 1 then [] else '.' :: digits.drop 1) ++
    ['e', if lead < 0 then '-' else '+'] ++ Nat.toDigits 10 lead.natAbs

def Format.write (f : Format) (s : Scaled) : List Char :=
  let digits := Nat.toDigits 10 s.digits
  let lead := s.exponent + digits.length - 1
  if f.positionalFrom ≤ lead && lead ≤ f.positionalTo then positional digits lead
  else exponential digits lead

/-- The text of a finite double; zero keeps its sign. -/
def Format.writeDouble (f : Format) (x : Float) : List Char :=
  let bits := x.toBits.toNat
  let magnitude := bits % 0x8000000000000000
  let sign := if bits = magnitude then [] else ['-']
  sign ++ if magnitude = 0 then ['0', '.', '0'] else f.write (shortest (binaryOfBits bits))

end River.Decimal
