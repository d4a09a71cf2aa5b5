import River.Json.Head
import River.Text.Utf8

/-! Why a text cannot be read, and where. A failure of the syntax has its place at once; one of the
data gets its place from the value that it stands in, once that value's end has been looked for. -/
namespace River.Json

open Text (byteLength)

inductive Cause where
  | endInValue | endInList | endInObject | endInString
  | expectedValue | expectedWord | expectedColon | expectedListComma | expectedObjectComma
  | keyNotString | trailingComma | trailingCharacters
  | invalidNumber | numberOutOfRange
  | controlCharacter | invalidEscape | loneSurrogate | endOfSurrogatePair
  | tooDeep
  | wrongType (seen : Head) (expected : String)
  | wrongValue (seen : Head) (expected : String)
  | wrongLength (count : Nat) (expected : String)
  | missingField (name : String)
  | duplicateField (name : String)
  | unknownVariant (name : String) (known : List String)
  | unitVariant
  | emptyName

/-- Two alternatives are joined by a word, more are listed. -/
def alternatives (names : List String) : String :=
  match names.map fun n => "`" ++ n ++ "`" with
  | [] => "there are no variants"
  | [a] => "expected " ++ a
  | [a, b] => "expected " ++ a ++ " or " ++ b
  | many => "expected one of " ++ ", ".intercalate many

def Cause.message : Cause → String
  | .endInValue => "EOF while parsing a value"
  | .endInList => "EOF while parsing a list"
  | .endInObject => "EOF while parsing an object"
  | .endInString => "EOF while parsing a string"
  | .expectedValue => "expected value"
  | .expectedWord => "expected ident"
  | .expectedColon => "expected `:`"
  | .expectedListComma => "expected `,` or `]`"
  | .expectedObjectComma => "expected `,` or `\x7d`"
  | .keyNotString => "key must be a string"
  | .trailingComma => "trailing comma"
  | .trailingCharacters => "trailing characters"
  | .invalidNumber => "invalid number"
  | .numberOutOfRange => "number out of range"
  | .controlCharacter => "control character (\\u0000-\\u001F) found while parsing a string"
  | .invalidEscape => "invalid escape"
  | .loneSurrogate => "lone leading surrogate in hex escape"
  | .endOfSurrogatePair => "unexpected end of hex escape"
  | .tooDeep => "recursion limit exceeded"
  | .wrongType seen expected => "invalid type: " ++ seen.describe ++ ", expected " ++ expected
  | .wrongValue seen expected => "invalid value: " ++ seen.describe ++ ", expected " ++ expected
  | .wrongLength count expected => "invalid length " ++ count.repr ++ ", expected " ++ expected
  | .missingField name => "missing field `" ++ name ++ "`"
  | .duplicateField name => "duplicate field `" ++ name ++ "`"
  | .unknownVariant name known => "unknown variant `" ++ name ++ "`, " ++ alternatives known
  | .unitVariant => "invalid type: unit variant, expected newtype variant"
  | .emptyName => "the vector provided was empty, NonEmpty needs at least one element"

/-- A failure has a place, told by the bytes from there to the end, or none yet and the text that
was left when it arose. -/
inductive Failure where
  | placed (cause : Cause) (left : Nat)
  | loose (cause : Cause) (rest : List Char)

abbrev Reader (α : Type) := List Char → Except Failure (α × List Char)

/-- A failure at the first byte of what is left. -/
def failHere (cause : Cause) (rest : List Char) : Except Failure α :=
  .error (.placed cause (byteLength rest))

/-- A failure because of the first byte of what is left, placed just after it. -/
def failAfterNext (cause : Cause) (rest : List Char) : Except Failure α :=
  .error (.placed cause (byteLength rest - 1))

def failLoose (cause : Cause) (rest : List Char) : Except Failure α :=
  .error (.loose cause rest)

theorem of_bind_ok {outcome : Except ε α} {next : α → Except ε β}
    (h : (outcome >>= next) = .ok b) : ∃ a, outcome = .ok a ∧ next a = .ok b := by
  cases outcome with
  | error e => cases h
  | ok a => exact ⟨a, rfl, h⟩

end River.Json
