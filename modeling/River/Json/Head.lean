import River.Decimal.Format
import River.Text.Quoted

/-! What a reader sees at the start of a value: a whole scalar, or the bracket that opens an array
or an object. -/
namespace River.Json

/-- A word has 64 bits, so this is `2 ^ 64`. -/
def wordLimit : Nat := 0x10000000000000000

/-- A number in text is natural if it is written as digits alone and below `2 ^ 64`, negative down
to `-2 ^ 63`, and otherwise a float; `-0` is a float. -/
inductive Number where
  | natural (n : Nat)
  | negative (n : Nat)
  | float (x : Float)

inductive Head where
  | null
  | bool (b : Bool)
  | number (n : Number)
  | string (s : List Char)
  | array
  | object

/-- Floats are positional from `1e-5` on and below `1e16`. -/
def floatFormat : Decimal.Format := ⟨-5, 15⟩

def Head.describe : Head → String
  | .null => "null"
  | .bool true => "boolean `true`"
  | .bool false => "boolean `false`"
  | .number (.natural n) => "integer `" ++ n.repr ++ "`"
  | .number (.negative n) => "integer `-" ++ n.repr ++ "`"
  | .number (.float x) => "floating point `" ++ String.ofList (floatFormat.writeDouble x) ++ "`"
  | .string s => "string " ++ Text.quoted (String.ofList s)
  | .array => "sequence"
  | .object => "map"

end River.Json
