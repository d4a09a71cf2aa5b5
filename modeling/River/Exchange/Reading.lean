import River.Exchange.Schema
import River.Json.Skip

/-! Reading a shape from JSON text. A record is an object with its fields in any order or an array
of them in theirs; a choice is an object with one key, or a string if the variant carries nothing.
Where a value has an end of its own, the end is looked for even if what it holds could not be read:
the first failure is the one that counts, and one without a place gets the place where that look
ended. -/
namespace River.Exchange

open River.Json

/-- A value whose type is not the expected one is read as far as its head goes. -/
def wrongType (seen : Head) (expected : String) (rest : List Char) : Except Failure α :=
  failHere (.wrongType seen expected) rest

def head (text : List Char) : Except Failure (Head × List Char) :=
  match skipBlanks text with
  | [] => failHere .endInValue []
  | 'n' :: rest => do return (.null, ← word ['u', 'l', 'l'] rest)
  | 't' :: rest => do return (.bool true, ← word ['r', 'u', 'e'] rest)
  | 'f' :: rest => do return (.bool false, ← word ['a', 'l', 's', 'e'] rest)
  | '"' :: rest => do
    let (s, rest) ← readString rest
    return (.string s, rest)
  | '[' :: rest => .ok (.array, '[' :: rest)
  | '\x7b' :: rest => .ok (.object, '\x7b' :: rest)
  | c :: rest =>
    if c = '-' ∨ c.isDigit = true then do
      let (n, rest) ← readNumber (c :: rest)
      return (.number n, rest)
    else failAfterNext .expectedValue (c :: rest)

def readPos (text : List Char) : Except Failure (Pos × List Char) := do
  match ← head text with
  | (.null, rest) => return (.unplaced, rest)
  | (.number (.natural n), rest) => return (.ofOffset n, rest)
  | (.number (.negative n), rest) => failHere (.wrongValue (.number (.negative n)) "usize") rest
  | (seen, rest) => wrongType seen "usize" rest

def readText (text : List Char) : Except Failure (String × List Char) := do
  match ← head text with
  | (.string s, rest) => return (String.ofList s, rest)
  | (seen, rest) => wrongType seen "a string" rest

def readFlag (text : List Char) : Except Failure (Bool × List Char) := do
  match ← head text with
  | (.bool b, rest) => return (b, rest)
  | (seen, rest) => wrongType seen "a boolean" rest

def readLabel (text : List Char) : Except Failure (Option String × List Char) := do
  match ← head text with
  | (.null, rest) => return (none, rest)
  | (.string s, rest) => return (some (String.ofList s), rest)
  | (seen, rest) => wrongType seen "a string" rest

def readUnit (text : List Char) : Except Failure (Unit × List Char) := do
  match ← head text with
  | (.null, rest) => return ((), rest)
  | (seen, rest) => wrongType seen "unit" rest

/-- Looks for the end of a list: what is wrong with it, if anything, and the text after the look. -/
def listEnd (text : List Char) : Option Cause × List Char :=
  match skipBlanks text with
  | [] => (some .endInList, [])
  | ']' :: rest => (none, rest)
  | ',' :: rest =>
    match skipBlanks rest with
    | ']' :: rest => (some .trailingComma, ']' :: rest)
    | rest => (some .trailingCharacters, rest)
  | rest => (some .trailingCharacters, rest)

/-- Looks for the end of an object. A comma before it stays where it is. -/
def objectEnd (text : List Char) : Option Cause × List Char :=
  match skipBlanks text with
  | [] => (some .endInObject, [])
  | '\x7d' :: rest => (none, rest)
  | ',' :: rest => (some .trailingComma, ',' :: rest)
  | rest => (some .trailingCharacters, rest)

/-- Looks for the end of what was read, whether or not reading it failed. -/
def closing (close : List Char → Option Cause × List Char) :
    Except Failure (α × List Char) → Except Failure (α × List Char)
  | .ok (a, text) =>
    match close text with
    | (none, rest) => .ok (a, rest)
    | (some cause, rest) => failAfterNext cause rest
  | .error (.loose cause text) => failHere cause (close text).2
  | .error (.placed cause left) => .error (.placed cause left)

/-- Whether another item stands in a list, and the text from there on. -/
def nextItem (first : Bool) (text : List Char) : Except Failure (Bool × List Char) :=
  match skipBlanks text with
  | [] => failHere .endInList []
  | ']' :: rest => .ok (false, ']' :: rest)
  | c :: rest =>
    if first then .ok (true, c :: rest)
    else if c = ',' then
      match skipBlanks rest with
      | [] => failHere .endInValue []
      | ']' :: rest => failAfterNext .trailingComma (']' :: rest)
      | rest => .ok (true, rest)
    else failAfterNext .expectedListComma (c :: rest)

/-- The items of a list up to its end. Every item takes a character at least. -/
def items (item : Reader α) : (clock : List Char) → (first : Bool) → Reader (List α)
  | [], _, _ => failHere .endInList []
  | _ :: clock, first, text => do
    match ← nextItem first text with
    | (false, rest) => return ([], rest)
    | (true, rest) => do
      let (a, rest) ← item rest
      let (as, rest) ← items item clock false rest
      return (a :: as, rest)

/-- The fields of a record in their order. `count` have been read. -/
def elements (read : (s : Shape) → Reader s.Content) (expected : String) :
    (fields : Fields) → (count : Nat) → Reader (Row fields)
  | [], _, text => .ok ((), text)
  | (_, s) :: fields, count, text => do
    match ← nextItem (count == 0) text with
    | (false, rest) => failLoose (.wrongLength count expected) rest
    | (true, rest) => do
      let (v, rest) ← read s rest
      let (row, rest) ← elements read expected fields (count + 1) rest
      return ((v, row), rest)

/-- The fields that have been read so far. -/
abbrev Slots : Fields → Type
  | [] => Unit
  | (_, s) :: fields => Option s.Content × Slots fields

def Slots.empty : (fields : Fields) → Slots fields
  | [] => ()
  | _ :: fields => (none, Slots.empty fields)

/-- All fields, where those that may be absent have been filled in. -/
def Slots.complete : (fields : Fields) → Slots fields → Except Cause (Row fields)
  | [], () => .ok ()
  | (name, s) :: fields, (slot, slots) =>
    match slot.orElse fun _ => s.absent? with
    | some v => do return (v, ← complete fields slots)
    | none => .error (.missingField name)

/-- The value after a key that is the name of a field, which must not have been read before; `none`
if there is no such field. -/
def Slots.fill? (read : (s : Shape) → Reader s.Content) (key : String) :
    (fields : Fields) → Slots fields → List Char →
      Option (Except Failure (Slots fields × List Char))
  | [], _, _ => none
  | (name, s) :: fields, (slot, slots), text =>
    if name = key then
      some <| match slot with
        | some _ => failLoose (.duplicateField name) text
        | none => do
          let rest ← colon text
          let (v, rest) ← read s rest
          return ((some v, slots), rest)
    else
      (fill? read key fields slots text).map fun filled => do
        let (slots, rest) ← filled
        return ((slot, slots), rest)

/-- Whether another key stands in an object, and the text after its opening quote or, if there is
none, from the end on. -/
def nextKey (first : Bool) (text : List Char) : Except Failure (Bool × List Char) :=
  match skipBlanks text with
  | [] => failHere .endInObject []
  | '\x7d' :: rest => .ok (false, '\x7d' :: rest)
  | c :: rest =>
    if first then
      if c = '"' then .ok (true, rest) else failAfterNext .keyNotString (c :: rest)
    else if c = ',' then
      match skipBlanks rest with
      | [] => failHere .endInValue []
      | '"' :: rest => .ok (true, rest)
      | '\x7d' :: rest => failAfterNext .trailingComma ('\x7d' :: rest)
      | rest => failAfterNext .keyNotString rest
    else failAfterNext .expectedObjectComma (c :: rest)

/-- The members of an object up to its end. Members that are no fields are skipped. -/
def members (read : (s : Shape) → Reader s.Content) (fields : Fields) :
    (clock : List Char) → (first : Bool) → Slots fields → Reader (Slots fields)
  | [], _, _, _ => failHere .endInObject []
  | _ :: clock, first, slots, text => do
    match ← nextKey first text with
    | (false, rest) => return (slots, rest)
    | (true, rest) => do
      let (key, rest) ← readString rest
      match slots.fill? read (String.ofList key) fields rest with
      | some filled => do
        let (slots, rest) ← filled
        members read fields clock false slots rest
      | none => do
        let rest ← colon rest
        let rest ← skipValue rest
        members read fields clock false slots rest

def objectRow (read : (s : Shape) → Reader s.Content) (fields : Fields) (text : List Char) :
    Except Failure (Row fields × List Char) := do
  let (slots, rest) ← members read fields text true (Slots.empty fields) text
  match Slots.complete fields slots with
  | .ok row => return (row, rest)
  | .error cause => failLoose cause rest

def findVariant (variants : List (Variant α)) (name : String) (rest : List Char) :
    Except Failure (Variant α) :=
  match variants.find? (·.name == name) with
  | some v => .ok v
  | none => failHere (.unknownVariant name (variants.map (·.name))) rest

/-- A variant that is named by a string carries nothing. -/
def bareVariant (rest : List Char) : Variant α → Except Failure (α × List Char)
  | ⟨_, .unit, make⟩ => .ok (make (), rest)
  | _ => failLoose .unitVariant rest

def taggedVariant (read : (s : Shape) → Reader s.Content) (variants : List (Variant α))
    (text : List Char) : Except Failure (α × List Char) :=
  match skipBlanks text with
  | [] => failHere .endInObject []
  | '\x7d' :: rest => failAfterNext .expectedValue ('\x7d' :: rest)
  | '"' :: rest => do
    let (key, rest) ← readString rest
    let variant ← findVariant variants (String.ofList key) rest
    let rest ← colon rest
    let (v, rest) ← read variant.payload rest
    match skipBlanks rest with
    | [] => failHere .endInObject []
    | '\x7d' :: rest => return (variant.make v, rest)
    | rest => failHere .expectedValue rest
  | rest => failAfterNext .keyNotString rest

/-- Reads a shape, and what is inside of its brackets with `inner`; without `inner`, no bracket may
open. -/
def readWith (inner : Option ((s : Shape) → Reader s.Content)) : (s : Shape) → Reader s.Content
  | .pos, text => readPos text
  | .text, text => readText text
  | .flag, text => readFlag text
  | .label, text => readLabel text
  | .unit, text => readUnit text
  | .blockName, text => do
    match ← list .text text with
    | ([], rest) => failLoose .emptyName rest
    | (part :: parts, rest) => return (⟨part, parts⟩, rest)
  | .list item, text => list item text
  | .record r, text => do
    let (seen, rest) ← head text
    match seen, inner with
    | .array, some read =>
      let expected := r.expectation ++ " with " ++ r.fields.length.repr ++ " elements"
      let (row, rest) ← closing listEnd (elements read expected r.fields 0 (rest.drop 1))
      return (r.build row, rest)
    | .object, some read =>
      let (row, rest) ← closing objectEnd (objectRow read r.fields (rest.drop 1))
      return (r.build row, rest)
    | .array, none => failAfterNext .tooDeep rest
    | .object, none => failAfterNext .tooDeep rest
    | seen, _ => wrongType seen r.expectation rest
  | .choice c, text =>
    match skipBlanks text with
    | [] => failHere .endInValue []
    | '"' :: rest => do
      let (name, rest) ← readString rest
      let variant ← findVariant c.variants (String.ofList name) rest
      bareVariant rest variant
    | '\x7b' :: rest =>
      match inner with
      | some read => taggedVariant read c.variants rest
      | none => failAfterNext .tooDeep ('\x7b' :: rest)
    | rest => failAfterNext .expectedValue rest
where
  list (item : Shape) (text : List Char) : Except Failure (List item.Content × List Char) := do
    let (seen, rest) ← head text
    match seen, inner with
    | .array, some read => closing listEnd (items (read item) (rest.drop 1) true (rest.drop 1))
    | .array, none => failAfterNext .tooDeep rest
    | seen, _ => wrongType seen "a sequence" rest

/-- Reads a shape whose brackets are nested at most `depth` deep. -/
def read : (depth : Nat) → (s : Shape) → Reader s.Content
  | 0 => readWith none
  | depth + 1 => readWith (some (read depth))

def depthLimit : Nat := 127

/-- Reads a whole text, which must hold one value and blanks. -/
def readAll (s : Shape) (text : List Char) : Except Failure s.Content := do
  let (v, rest) ← read depthLimit s text
  match skipBlanks rest with
  | [] => return v
  | rest => failAfterNext .trailingCharacters rest

end River.Exchange
