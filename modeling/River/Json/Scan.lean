import River.Json.Failure

/-! Blanks, words and strings at the start of a text. Each scanner returns the text after what it
takes. -/
namespace River.Json

open Text (byteLength)

def isBlank (c : Char) : Bool := c == ' ' || c == '\n' || c == '\t' || c == '\r'

def skipBlanks (text : List Char) : List Char := text.dropWhile isBlank

/-- The rest of a word whose first letter told which it is. -/
def word : List Char → List Char → Except Failure (List Char)
  | [], rest => .ok rest
  | _ :: _, [] => failAfterNext .endInValue []
  | w :: ws, c :: rest => if w = c then word ws rest else failAfterNext .expectedWord (c :: rest)

def hexValue? (c : Char) : Option Nat :=
  if '0' ≤ c ∧ c ≤ '9' then some (c.toNat - '0'.toNat)
  else if 'a' ≤ c ∧ c ≤ 'f' then some (c.toNat - 'a'.toNat + 10)
  else if 'A' ≤ c ∧ c ≤ 'F' then some (c.toNat - 'A'.toNat + 10)
  else none

/-- Four hexadecimal digits. Four bytes are taken at once, whatever they are. -/
def hexUnit (text : List Char) : Except Failure (Nat × List Char) :=
  let invalid : Except Failure (Nat × List Char) :=
    if byteLength text < 4 then .error (.placed .endInString 0)
    else .error (.placed .invalidEscape (byteLength text - 4))
  match text with
  | a :: b :: c :: d :: rest =>
    match hexValue? a, hexValue? b, hexValue? c, hexValue? d with
    | some a, some b, some c, some d => .ok (((a * 16 + b) * 16 + c) * 16 + d, rest)
    | _, _, _, _ => invalid
  | _ => invalid

/-- An escape after its backslash, as the code unit that it stands for. -/
def escapedUnit : List Char → Except Failure (Nat × List Char)
  | [] => failHere .endInString []
  | '"' :: rest => .ok (0x22, rest)
  | '\\' :: rest => .ok (0x5c, rest)
  | '/' :: rest => .ok (0x2f, rest)
  | 'b' :: rest => .ok (0x08, rest)
  | 'f' :: rest => .ok (0x0c, rest)
  | 'n' :: rest => .ok (0x0a, rest)
  | 'r' :: rest => .ok (0x0d, rest)
  | 't' :: rest => .ok (0x09, rest)
  | 'u' :: rest => hexUnit rest
  | c :: rest => failAfterNext .invalidEscape (c :: rest)

def isHighSurrogate (n : Nat) : Bool := 0xd800 ≤ n && n ≤ 0xdbff
def isLowSurrogate (n : Nat) : Bool := 0xdc00 ≤ n && n ≤ 0xdfff

/-- The code point above `0xffff` that two surrogates stand for. -/
def surrogatePair (high low : Nat) : Nat := (high - 0xd800) * 0x400 + (low - 0xdc00) + 0x10000

/-- One character of a pair's second half, which must be `c`. -/
def pairMark (c : Char) : List Char → Except Failure (List Char)
  | [] => failHere .endInString []
  | d :: rest => if d = c then .ok rest else failAfterNext .endOfSurrogatePair (d :: rest)

/-- An escape after its backslash, as a character. Surrogates come in pairs. -/
def escapedChar (text : List Char) : Except Failure (Char × List Char) := do
  let (n, rest) ← escapedUnit text
  if isLowSurrogate n then failHere .loneSurrogate rest
  else if isHighSurrogate n then do
    let rest ← pairMark '\\' rest
    let rest ← pairMark 'u' rest
    let (m, rest) ← hexUnit rest
    if isLowSurrogate m then return (Char.ofNat (surrogatePair n m), rest)
    else failHere .loneSurrogate rest
  else return (Char.ofNat n, rest)

/-- A string after its opening quote. Every step takes a character at least, so the text itself
limits their number (`clock`). -/
def stringRest : (clock : List Char) → Reader (List Char)
  | [], _ => failHere .endInString []
  | _ :: _, [] => failHere .endInString []
  | _ :: clock, c :: rest =>
    if c = '"' then .ok ([], rest)
    else if c = '\\' then do
      let (d, rest) ← escapedChar rest
      let (cs, rest) ← stringRest clock rest
      return (d :: cs, rest)
    else if c.toNat < 0x20 then failHere .controlCharacter rest
    else do
      let (cs, rest) ← stringRest clock rest
      return (c :: cs, rest)

def readString (text : List Char) : Except Failure (List Char × List Char) := stringRest text text

/-- A string that nobody asks for: its escapes need not make characters. -/
def skipStringRest : (clock : List Char) → List Char → Except Failure (List Char)
  | [], _ => failHere .endInString []
  | _ :: _, [] => failHere .endInString []
  | _ :: clock, c :: rest =>
    if c = '"' then .ok rest
    else if c = '\\' then do
      let (_, rest) ← escapedUnit rest
      skipStringRest clock rest
    else if c.toNat < 0x20 then failHere .controlCharacter (c :: rest)
    else skipStringRest clock rest

def skipString (text : List Char) : Except Failure (List Char) := skipStringRest text text

end River.Json
