import River.Json.Failure

/-! Numbers at the start of a text: their spelling first, then their value. -/
namespace River.Json

open Text (byteLength)

/-- The spelling of a number: a sign, digits, and if it has them digits after a point and digits of
an exponent with its sign. -/
structure Numeral where
  negative : Bool
  whole : List Char
  fraction : Option (List Char)
  exponent : Option (Bool × List Char)
  deriving DecidableEq

def splitDigits (text : List Char) : List Char × List Char :=
  (text.takeWhile Char.isDigit, text.dropWhile Char.isDigit)

/-- Digits before the point: a leading zero stands alone. `atEnd` tells what a text that ends too
early fails with. -/
def wholePart (atEnd : Cause) : Reader (List Char)
  | [] => failHere atEnd []
  | '0' :: rest =>
    match rest with
    | d :: _ => if d.isDigit then failAfterNext .invalidNumber rest else .ok (['0'], rest)
    | [] => .ok (['0'], [])
  | c :: rest =>
    if c.isDigit then .ok (splitDigits (c :: rest)) else failAfterNext .invalidNumber (c :: rest)

def fractionPart (atEnd : Cause) : Reader (Option (List Char))
  | '.' :: rest =>
    match splitDigits rest with
    | ([], []) => failHere atEnd []
    | ([], rest) => failAfterNext .invalidNumber rest
    | (digits, rest) => .ok (some digits, rest)
  | rest => .ok (none, rest)

/-- The sign of an exponent; without one it is positive. -/
def exponentSign : List Char → Bool × List Char
  | '+' :: rest => (false, rest)
  | '-' :: rest => (true, rest)
  | rest => (false, rest)

def exponentDigits (atEnd : Cause) (text : List Char) :
    Except Failure (Option (Bool × List Char) × List Char) :=
  let (negative, text) := exponentSign text
  match splitDigits text with
  | ([], []) => failHere atEnd []
  | ([], rest) => failAfterNext .invalidNumber rest
  | (digits, rest) => .ok (some (negative, digits), rest)

def exponentPart (atEnd : Cause) : Reader (Option (Bool × List Char))
  | 'e' :: rest => exponentDigits atEnd rest
  | 'E' :: rest => exponentDigits atEnd rest
  | rest => .ok (none, rest)

def minus : List Char → Bool × List Char
  | '-' :: rest => (true, rest)
  | rest => (false, rest)

def numeral (atEnd : Cause) (text : List Char) : Except Failure (Numeral × List Char) := do
  let (negative, text) := minus text
  let (whole, text) ← wholePart atEnd text
  let (fraction, text) ← fractionPart atEnd text
  let (exponent, text) ← exponentPart atEnd text
  return (⟨negative, whole, fraction, exponent⟩, text)

/-- A number that nobody asks for. -/
def skipNumber (text : List Char) : Except Failure (List Char) := do
  let (_, rest) ← numeral .invalidNumber text
  return rest

/-! A float is made of a significand of 64 bits and a power of ten. Digits are added to the
significand as long as they fit; a digit before the point that does not fit counts as a power of
ten. -/

/-- The significand with the digits that fit, and the digits left over. -/
def takeDigits (significand : Nat) : List Char → Nat × List Char
  | [] => (significand, [])
  | d :: ds =>
    let next := significand * 10 + (d.toNat - '0'.toNat)
    if next < wordLimit then takeDigits next ds else (significand, d :: ds)

/-- `x / 10 ^ k`, by steps that stay in the range of a float. -/
def divideByPower (x : Float) (k : Nat) : Float :=
  if k ≤ 308 then x / Float.ofScientific 1 false k
  else if x == 0 then x
  else divideByPower (x / Float.ofScientific 1 false 308) (k - 308)
termination_by k

/-- `significand * 10 ^ exponent`, if that is finite. -/
def scale (significand : Nat) (exponent : Int) : Option Float :=
  let x := (UInt64.ofNat significand).toFloat
  if exponent < 0 then some (divideByPower x exponent.natAbs)
  else if 308 < exponent then if x == 0 then some x else none
  else
    let y := x * Float.ofScientific 1 false exponent.toNat
    if y.isInf then none else some y

/-- The digits of an exponent up to the one that takes it beyond 31 bits: the digits left over. -/
def exponentOverflow? (value : Nat) : List Char → Option (List Char)
  | [] => none
  | d :: ds =>
    let next := value * 10 + (d.toNat - '0'.toNat)
    if next < 0x80000000 then exponentOverflow? next ds else some ds

/-- The value of a float, or the number of digits that were not looked at when it was found to be
out of range. -/
def Numeral.float (n : Numeral) : Except Nat Float :=
  let (significand, above) := takeDigits 0 n.whole
  let fraction := n.fraction.getD []
  let (significand, below) := takeDigits significand fraction
  let places : Int := (above.length : Int) - ((fraction.length : Int) - (below.length : Int))
  let signed (x : Float) : Float := if n.negative then -x else x
  let scaled (exponent : Int) : Except Nat Float :=
    match scale significand exponent with
    | some x => .ok (signed x)
    | none => .error 0
  match n.exponent with
  | none => scaled places
  | some (negative, digits) =>
    match exponentOverflow? 0 digits with
    | some rest =>
      if significand = 0 ∨ negative = true then .ok (signed 0) else .error rest.length
    | none =>
      let value := Nat.ofDigitChars 10 digits 0
      scaled (if negative then places - value else places + value)

/-- The value of a number without a point and an exponent is exact if it fits. -/
def Numeral.value (n : Numeral) : Except Nat Number :=
  let whole := Nat.ofDigitChars 10 n.whole 0
  if n.fraction.isNone ∧ n.exponent.isNone ∧ n.negative = false ∧ whole < wordLimit then
    .ok (.natural whole)
  else if n.fraction.isNone ∧ n.exponent.isNone ∧ n.negative = true ∧ 0 < whole ∧
      2 * whole ≤ wordLimit then
    .ok (.negative whole)
  else n.float.map .float

def readNumber (text : List Char) : Except Failure (Number × List Char) := do
  let (n, rest) ← numeral .endInValue text
  match n.value with
  | .ok value => return (value, rest)
  | .error unread => .error (.placed .numberOutOfRange (byteLength rest + unread))

end River.Json
