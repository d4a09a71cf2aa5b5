import River.Text.Utf8

/-! Lines of a text, counted in bytes. A line break is the byte 10, which no longer encoded
character contains, and belongs to the line that it ends. -/
namespace River.Text

/-- The lines, each with the break that ends it. What follows the last break is a line too, also if
there is nothing more. -/
def splitLines : List Char → List (List Char)
  | [] => [[]]
  | c :: text =>
    if c = '\n' then [c] :: splitLines text else (splitLines text).modifyHead (c :: ·)

/-- The line breaks among the first `k` bytes. -/
def breaksBefore (bytes : List UInt8) (k : Nat) : Nat := (bytes.take k).count 10

/-- The bytes between the last line break among the first `k` bytes, or the start, and `k`. -/
def sinceBreak (bytes : List UInt8) (k : Nat) : Nat :=
  ((bytes.take k).reverse.takeWhile (· != 10)).length

/-- The indices just after each line break; the first byte stands at `index`. -/
def startsAfterBreaks (index : Nat) : List UInt8 → List Nat
  | [] => []
  | b :: bytes =>
    if b = 10 then (index + 1) :: startsAfterBreaks (index + 1) bytes
    else startsAfterBreaks (index + 1) bytes

@[simp] theorem length_startsAfterBreaks (index : Nat) (bytes : List UInt8) :
    (startsAfterBreaks index bytes).length = bytes.count 10 := by
  induction bytes generalizing index with
  | nil => rfl
  | cons b bytes ih => by_cases h : b = 10 <;> simp [startsAfterBreaks, h, ih]

end River.Text
