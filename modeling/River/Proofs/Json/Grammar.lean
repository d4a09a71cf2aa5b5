import River.Json.Printer
import River.Json.Scan

/-! The grammar of JSON: the texts that are well-formed, whatever values they stand for. Each is
described in front of what follows it, and blanks may stand around every token. -/
namespace River.Json

def Blank (text : List Char) : Prop := ∀ c ∈ text, isBlank c = true

instance (text : List Char) : Decidable (Blank text) :=
  decidable_of_iff (text.all isBlank = true) List.all_eq_true

/-- A sign among blanks. -/
def Mark (sign : Char) (text : List Char) : Prop :=
  ∃ before after, Blank before ∧ Blank after ∧ text = before ++ sign :: after

/-- What stands before an item or a member: a comma, unless it is the first one. -/
def Separator : (first : Bool) → List Char → Prop
  | true, text => Blank text
  | false, text => Mark ',' text

/-- A digit of hexadecimal in either case. -/
def HexDigit (n : Nat) (c : Char) : Prop := n < 16 ∧ (c = hexDigit n ∨ c = (hexDigit n).toUpper)

inductive HexWord (n : Nat) : List Char → Prop where
  | digits : HexDigit (n / 0x1000) a → HexDigit (n / 0x100 % 0x10) b →
      HexDigit (n / 0x10 % 0x10) c → HexDigit (n % 0x10) d → HexWord n [a, b, c, d]

/-- The letters that escape a character, and the characters. -/
def letterEscapes : List (Char × Char) := [('"', '"'), ('\\', '\\'), ('/', '/'), ('b', '\x08'),
  ('f', '\x0c'), ('n', '\n'), ('r', '\r'), ('t', '\t')]

/-- A string after its opening quote. An escaped number need not be that of a character. -/
inductive StringText : List Char → List Char → Prop where
  | nil : StringText ('"' :: rest) rest
  | raw : 0x20 ≤ c.toNat → c ≠ '"' → c ≠ '\\' → StringText text rest → StringText (c :: text) rest
  | letter : (letter, c) ∈ letterEscapes → StringText text rest →
      StringText ('\\' :: letter :: text) rest
  | word : HexWord n digits → StringText text rest →
      StringText ('\\' :: 'u' :: (digits ++ text)) rest

/-- What follows would not be read as a part of the number before it. -/
def EndsNumber (rest : List Char) : Prop :=
  ∀ c ∈ rest.head?, c.isDigit = false ∧ c ≠ '.' ∧ c ≠ 'e' ∧ c ≠ 'E'

structure Digits (text : List Char) : Prop where
  some : text ≠ []
  all : ∀ c ∈ text, c.isDigit = true

/-- The digits before the point: a zero stands alone. -/
structure Whole (text : List Char) : Prop extends Digits text where
  zero : text.head? = Option.some '0' → text = ['0']

inductive Fraction : List Char → Prop where
  | none : Fraction []
  | point : Digits text → Fraction ('.' :: text)

inductive Exponent : List Char → Prop where
  | none : Exponent []
  | power : mark = 'e' ∨ mark = 'E' → sign ∈ [[], ['+'], ['-']] → Digits text →
      Exponent (mark :: (sign ++ text))

inductive NumberText : List Char → Prop where
  | parts : sign ∈ [[], ['-']] → Whole whole → Fraction fraction → Exponent exponent →
      NumberText (sign ++ (whole ++ (fraction ++ exponent)))

mutual

/-- A text that starts with a well-formed value, and the rest of it. -/
inductive Wellformed : List Char → List Char → Prop where
  | null : Wellformed ('n' :: 'u' :: 'l' :: 'l' :: rest) rest
  | isTrue : Wellformed ('t' :: 'r' :: 'u' :: 'e' :: rest) rest
  | isFalse : Wellformed ('f' :: 'a' :: 'l' :: 's' :: 'e' :: rest) rest
  | number : NumberText digits → EndsNumber rest → Wellformed (digits ++ rest) rest
  | string : StringText text rest → Wellformed ('"' :: text) rest
  | array : WellformedItems true text rest → Wellformed ('[' :: text) rest
  | object : WellformedMembers true text rest → Wellformed ('\x7b' :: text) rest

inductive WellformedItems : (first : Bool) → List Char → List Char → Prop where
  | nil : Blank before → WellformedItems first (before ++ ']' :: rest) rest
  | cons : Separator first mark → Wellformed text next → WellformedItems false next rest →
      WellformedItems first (mark ++ text) rest

inductive WellformedMembers : (first : Bool) → List Char → List Char → Prop where
  | nil : Blank before → WellformedMembers first (before ++ '\x7d' :: rest) rest
  | cons : Separator first mark → StringText key (sign ++ text) → Mark ':' sign →
      Wellformed text next → WellformedMembers false next rest →
      WellformedMembers first (mark ++ '"' :: key) rest

end

theorem digit_starts_number (digit : c.isDigit = true) : isBlank c = false ∧
    ∀ d ∈ ['n', 't', 'f', '"', '[', ']', '\x7b', '\x7d', ',', '-'], c ≠ d := by
  have others : ∀ d ∈ ['n', 't', 'f', '"', '[', ']', '\x7b', '\x7d', ',', '-'],
      d.isDigit = false := by simp [Char.isDigit]
  constructor
  · rw [Bool.eq_false_iff]
    intro blank
    simp only [isBlank, Bool.or_eq_true, beq_iff_eq] at blank
    rcases blank with ((rfl | rfl) | rfl) | rfl <;> simp [Char.isDigit] at digit
  · rintro d member rfl
    simp [others c member] at digit

theorem StringText.length_lt (string : StringText text rest) : rest.length < text.length := by
  induction string with
  | nil => simp
  | raw _ _ _ _ ih => exact Nat.lt_succ_of_lt ih
  | letter _ _ ih => exact Nat.lt_succ_of_lt (Nat.lt_succ_of_lt ih)
  | word _ _ ih =>
    simp only [List.length_cons, List.length_append]
    omega

theorem NumberText.starts (spelled : NumberText text) :
    ∃ c cs, text = c :: cs ∧ (c = '-' ∨ c.isDigit = true) := by
  cases spelled with
  | @parts sign whole fraction exponent signed digits =>
    obtain ⟨d, ds, rfl⟩ := List.exists_cons_of_ne_nil digits.some
    have digit := digits.all d (by simp)
    simp only [List.mem_cons, List.not_mem_nil, or_false] at signed
    rcases signed with rfl | rfl
    · exact ⟨d, _, rfl, .inr digit⟩
    · exact ⟨'-', _, rfl, .inl rfl⟩

theorem number_starts_value (first : c = '-' ∨ c.isDigit = true) : isBlank c = false ∧
    ∀ d ∈ ['n', 't', 'f', '"', '[', ']', '\x7b', '\x7d', ','], c ≠ d := by
  rcases first with rfl | digit
  · simp [isBlank]
  · obtain ⟨solid, others⟩ := digit_starts_number digit
    exact ⟨solid, fun d member => others d (List.mem_append_left ['-'] member)⟩

mutual

theorem Wellformed.length_lt : Wellformed text rest → rest.length < text.length
  | .null => by simp; omega
  | .isTrue => by simp; omega
  | .isFalse => by simp; omega
  | .number digits _ => by
    obtain ⟨c, cs, rfl, _⟩ := digits.starts
    simp only [List.length_append, List.length_cons]
    omega
  | .string chars => Nat.lt_succ_of_lt chars.length_lt
  | .array items => Nat.lt_succ_of_lt items.length_lt
  | .object members => Nat.lt_succ_of_lt members.length_lt

theorem WellformedItems.length_lt : WellformedItems first text rest → rest.length < text.length
  | .nil _ => by simp; omega
  | .cons _ value more => by
    have := value.length_lt
    have := more.length_lt
    simp only [List.length_append]
    omega

theorem WellformedMembers.length_lt :
    WellformedMembers first text rest → rest.length < text.length
  | .nil _ => by simp; omega
  | .cons _ key _ value more => by
    have := key.length_lt
    have := value.length_lt
    have := more.length_lt
    simp only [List.length_cons, List.length_append] at *
    omega

end

/-- A value starts with a character of its own, which closes nothing. -/
theorem Wellformed.solid (value : Wellformed text rest) :
    ∃ c cs, text = c :: cs ∧ isBlank c = false ∧ c ≠ ']' := by
  cases value with
  | number digits _ =>
    obtain ⟨c, cs, rfl, first⟩ := digits.starts
    obtain ⟨solid, others⟩ := number_starts_value first
    exact ⟨c, _, rfl, solid, others _ (by decide)⟩
  | _ => exact ⟨_, _, rfl, by decide, by decide⟩

end River.Json
