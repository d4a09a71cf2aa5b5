import River.Json.Failure
import River.Report
import River.Text.Lines

/-! What is told about a text that cannot be read. -/
namespace River.Json

open Text (byteLength)

/-- What is told about a text that cannot be read: a message and, if known, a line and a column. -/
structure Complaint where
  message : String
  place : Option (Nat × Nat)
  deriving DecidableEq

/-- The line and the column of a byte index; a column is the number of bytes before it. -/
def lineColumn (text : List Char) (k : Nat) : Nat × Nat :=
  (Text.breaksBefore (Text.utf8 text) k + 1, Text.sinceBreak (Text.utf8 text) k)

def Failure.complaint (text : List Char) : Failure → Complaint
  | .placed cause left => ⟨cause.message, some (lineColumn text (byteLength text - left))⟩
  | .loose cause _ => ⟨cause.message, none⟩

namespace Complaint

/-- The last place where `pattern` stands: what is before it and what is after. -/
def splitLast (pattern : List Char) : List Char → Option (List Char × List Char)
  | [] => none
  | c :: cs =>
    match splitLast pattern cs with
    | some (before, after) => some (c :: before, after)
    | none =>
      if pattern.isPrefixOf (c :: cs) then some ([], (c :: cs).drop pattern.length) else none

/-- A number of at most 64 bits in decimal digits. -/
def word? (digits : List Char) : Option Nat :=
  let n := Nat.ofDigitChars 10 digits 0
  if digits.isEmpty || wordLimit ≤ n then none else some n

/-- The line and the column that a text consists of, as `line column C`. -/
def lineColumn? (text : List Char) : Option (Nat × Nat) := do
  let line := text.takeWhile Char.isDigit
  let rest := text.dropWhile Char.isDigit
  guard (" column ".toList.isPrefixOf rest)
  let column := rest.drop " column ".length
  guard (column.all Char.isDigit)
  return (← word? line, ← word? column)

/-- A message that ends with a place gives it up; lines count from one, so line zero is no place. -/
def ofMessage (message : String) : Complaint :=
  let split := do
    let (before, after) ← splitLast " at line ".toList message.toList
    return (before, ← lineColumn? after)
  match split with
  | none => ⟨message, none⟩
  | some (before, line, column) =>
    ⟨String.ofList before, if line = 0 then none else some (line, column)⟩

def text (c : Complaint) : String :=
  match c.place with
  | none => c.message
  | some (line, column) =>
    c.message ++ " at line " ++ line.repr ++ " column " ++ column.repr

/-- The place is told twice: in the message and in the note. -/
def report (c : Complaint) : Report :=
  { fault := .serialization
    message := c.text
    note := c.place.map fun (line, column) =>
      "JSON input line " ++ line.repr ++ ", column " ++ column.repr }

end Complaint
end River.Json
