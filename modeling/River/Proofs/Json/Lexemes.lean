import River.Proofs.Json.Skipped

/-! The lexemes of a text. Blanks between them and the spelling of strings are left aside; what
remains is determined by the text, and every text with the lexemes of a value spells that value. -/
namespace River.Json

def words : List (List Char) := [['['], [']'], ['\x7b'], ['\x7d'], [','], [':'],
  ['n', 'u', 'l', 'l'], ['t', 'r', 'u', 'e'], ['f', 'a', 'l', 's', 'e']]

/-- A number is known by its digits, a string by its characters. -/
inductive Lexeme where
  | word (cs : List Char)
  | number (digits : List Char)
  | string (cs : List Char)

/-- A text that starts with a lexeme, and the rest of it. -/
inductive Starts : Lexeme → List Char → List Char → Prop where
  | word : w ∈ words → Starts (.word w) (w ++ rest) rest
  | number : NumberText digits → EndsNumber rest → Starts (.number digits) (digits ++ rest) rest
  | string : SpellsString cs text rest → Starts (.string cs) ('"' :: text) rest

/-- A whole text as lexemes, with blanks around each. -/
inductive Lexes : List Lexeme → List Char → Prop where
  | nil : Blank text → Lexes [] text
  | cons : Blank before → Starts l text rest → Lexes ls rest → Lexes (l :: ls) (before ++ text)

/-- Two texts that differ in their blanks and in how their strings are spelled, and in no more. -/
def SameLexemes (text text' : List Char) : Prop := ∃ ls, Lexes ls text ∧ Lexes ls text'

theorem word_starts (member : w ∈ words) :
    ∃ c cs, w = c :: cs ∧ isBlank c = false ∧ c ≠ '"' ∧ c ≠ '-' ∧ c.isDigit = false := by
  simp only [words, List.mem_cons, List.not_mem_nil, or_false] at member
  rcases member with rfl | rfl | rfl | rfl | rfl | rfl | rfl | rfl | rfl <;>
    exact ⟨_, _, rfl, by decide⟩

theorem word_unique (left : w ∈ words) (right : v ∈ words) (same : w ++ rest = v ++ rest') :
    w = v := by
  have distinct : ∀ w ∈ words, ∀ v ∈ words, w.head? = v.head? → w = v := by decide
  obtain ⟨c, cs, rfl, _⟩ := word_starts left
  obtain ⟨d, ds, rfl, _⟩ := word_starts right
  exact distinct _ left _ right (congrArg some (List.cons.inj same).1)

theorem number_ne (number : NumberText digits) (sign : c ≠ '-') (other : c.isDigit = false) :
    digits ++ rest ≠ c :: cs := by
  obtain ⟨d, ds, rfl, first⟩ := number.starts
  rintro ⟨⟩
  rcases first with minus | digit
  · exact sign minus
  · simp [other] at digit

theorem number_ne_word (number : NumberText digits) (member : w ∈ words) :
    digits ++ rest ≠ w ++ rest' := by
  obtain ⟨c, cs, rfl, _, _, sign, other⟩ := word_starts member
  exact number_ne number sign other

theorem quote_ne_word (member : w ∈ words) : '"' :: text ≠ w ++ rest := by
  obtain ⟨c, cs, rfl, _, quote, _⟩ := word_starts member
  exact fun same => quote (List.cons.inj same).1.symm

theorem Starts.unique (left : Starts l text rest) (right : Starts m text' rest')
    (same : text = text') : l = m ∧ rest = rest' := by
  cases left with
  | word member =>
    cases right with
    | word member' =>
      obtain rfl := word_unique member member' same
      exact ⟨rfl, List.append_cancel_left same⟩
    | number digits _ => exact absurd same.symm (number_ne_word digits member)
    | string _ => exact absurd same.symm (quote_ne_word member)
  | number digits ends =>
    cases right with
    | word member => exact absurd same (number_ne_word digits member)
    | number digits' ends' =>
      have value : Wellformed _ rest := .number digits ends
      have value' : Wellformed _ rest' := .number digits' ends'
      obtain rfl := value.unique (same ▸ value')
      exact ⟨congrArg Lexeme.number (List.append_cancel_right same), rfl⟩
    | string _ => exact absurd same (number_ne digits (by decide) (by decide))
  | string chars =>
    cases right with
    | word member => exact absurd same (quote_ne_word member)
    | number digits _ => exact absurd same.symm (number_ne digits (by decide) (by decide))
    | string chars' =>
      obtain rfl := (List.cons.inj same).2
      obtain ⟨rfl, rfl⟩ := chars.unique chars'
      exact ⟨rfl, rfl⟩

theorem Starts.solid (starts : Starts l text rest) :
    ∃ c cs, text = c :: cs ∧ isBlank c = false := by
  cases starts with
  | word member =>
    obtain ⟨c, cs, rfl, solid, _⟩ := word_starts member
    exact ⟨c, _, rfl, solid⟩
  | number digits _ =>
    obtain ⟨c, cs, rfl, first⟩ := digits.starts
    exact ⟨c, _, rfl, (number_starts_value first).1⟩
  | string _ => exact ⟨_, _, rfl, by decide⟩

theorem Starts.not_blank (starts : Starts l text rest) : ¬Blank (before ++ text) := by
  obtain ⟨c, cs, rfl, solid⟩ := starts.solid
  intro blank
  simp [blank c (by simp)] at solid

theorem Lexes.unique (left : Lexes ls text) (right : Lexes ms text) : ls = ms := by
  induction left generalizing ms with
  | nil blank =>
    cases right with
    | nil _ => rfl
    | cons _ starts _ => exact absurd blank starts.not_blank
  | @cons before l text rest ls blank starts more ih =>
    generalize same : before ++ text = whole at right
    cases right with
    | nil blank' => exact absurd (same ▸ blank') starts.not_blank
    | cons blank' starts' more' =>
      obtain ⟨c, cs, rfl, solid⟩ := starts.solid
      obtain ⟨c', cs', rfl, solid'⟩ := starts'.solid
      have starting := blanks_cancel blank blank' solid solid' same
      obtain ⟨rfl, rfl⟩ := starts.unique starts' starting
      rw [ih more']

def comma : (first : Bool) → List Lexeme
  | true => []
  | false => [.word [',']]

mutual

def lexemes : Json → List Lexeme
  | null => [.word ['n', 'u', 'l', 'l']]
  | bool true => [.word ['t', 'r', 'u', 'e']]
  | bool false => [.word ['f', 'a', 'l', 's', 'e']]
  | number n => [.number (Nat.toDigits 10 n)]
  | string s => [.string s.toList]
  | array vs => .word ['['] :: itemLexemes true vs
  | object ms => .word ['\x7b'] :: memberLexemes true ms

def itemLexemes (first : Bool) : List Json → List Lexeme
  | [] => [.word [']']]
  | v :: vs => comma first ++ (v.lexemes ++ itemLexemes false vs)

def memberLexemes (first : Bool) : List (String × Json) → List Lexeme
  | [] => [.word ['\x7d']]
  | m :: ms => comma first ++ (memberLexeme m ++ memberLexemes false ms)

def memberLexeme : String × Json → List Lexeme
  | (k, v) => .string k.toList :: .word [':'] :: v.lexemes

end

theorem Lexes.blank (blank : Blank before) (lexes : Lexes ls text) : Lexes ls (before ++ text) := by
  cases lexes with
  | nil blank' => exact .nil (blank.append blank')
  | cons blank' starts more =>
    rw [← List.append_assoc]
    exact .cons (blank.append blank') starts more

theorem Lexes.mark (mark : Mark c sign) (member : [c] ∈ words) (lexes : Lexes ls text) :
    Lexes (.word [c] :: ls) (sign ++ text) := by
  obtain ⟨before, after, blank, blank', rfl⟩ := mark
  rw [List.append_assoc]
  exact .cons blank (.word member) (lexes.blank blank')

theorem Lexes.separated (mark : Separator first sep) (lexes : Lexes ls text) :
    Lexes (comma first ++ ls) (sep ++ text) := by
  cases first with
  | true => exact lexes.blank mark
  | false => exact lexes.mark mark (by decide)

theorem Starts.lexes (starts : Starts l text rest) (lexes : Lexes ls rest) :
    Lexes (l :: ls) text :=
  .cons Blank.nil starts lexes

mutual

theorem lexes_value : ∀ {v : Json} {text rest : List Char} {ls : List Lexeme},
    Spells v.doc text rest → Lexes ls rest → Lexes (v.lexemes ++ ls) text
  | .null, _, _, _, .null, more => (Starts.word (by decide)).lexes more
  | .bool true, _, _, _, .isTrue, more => (Starts.word (by decide)).lexes more
  | .bool false, _, _, _, .isFalse, more => (Starts.word (by decide)).lexes more
  | .number n, _, _, _, .number ends, more =>
    (Starts.number (numberText_toDigits n) ends).lexes more
  | .string _, _, _, _, .string chars, more => (Starts.string chars).lexes more
  | .array _, _, _, _, .array items, more =>
    (Starts.word (by decide)).lexes (lexes_items items more)
  | .object _, _, _, _, .object members, more =>
    (Starts.word (by decide)).lexes (lexes_members members more)

theorem lexes_items : ∀ {vs : List Json} {first : Bool} {text rest : List Char} {ls : List Lexeme},
    SpellsItems first (docItems vs) text rest → Lexes ls rest →
      Lexes (itemLexemes first vs ++ ls) text
  | [], _, _, _, _, .nil blank, more => .cons blank (.word (by decide)) more
  | v :: vs, _, _, _, _, .cons mark value items, more => by
    rw [itemLexemes, List.append_assoc, List.append_assoc]
    exact (lexes_value value (lexes_items items more)).separated mark

theorem lexes_members : ∀ {ms : List (String × Json)} {first : Bool} {text rest : List Char}
    {ls : List Lexeme}, SpellsMembers first (docMembers ms) text rest → Lexes ls rest →
      Lexes (memberLexemes first ms ++ ls) text
  | [], _, _, _, _, .nil blank, more => .cons blank (.word (by decide)) more
  | (k, v) :: ms, _, _, _, _, .cons mark chars colon value members, more => by
    rw [memberLexemes, List.append_assoc, List.append_assoc]
    have member := (lexes_value value (lexes_members members more)).mark colon (by decide)
    exact ((Starts.string chars).lexes member).separated mark

end

/-- After blanks, `p` holds of the text and of a rest that has the lexemes. -/
def Leads (p : List Char → List Char → Prop) (ls : List Lexeme) (text : List Char) : Prop :=
  ∃ before body rest, Blank before ∧ text = before ++ body ∧ p body rest ∧ Lexes ls rest

theorem Leads.imp (leads : Leads p ls text) (weaker : ∀ body rest, p body rest → q body rest) :
    Leads q ls text := by
  obtain ⟨before, body, rest, blank, rfl, holds, more⟩ := leads
  exact ⟨before, body, rest, blank, rfl, weaker _ _ holds, more⟩

theorem Lexes.leads (lexes : Lexes (l :: ls) text) : Leads (Starts l) ls text := by
  cases lexes with
  | cons blank starts more => exact ⟨_, _, _, blank, rfl, starts, more⟩

theorem Lexes.unseparated (lexes : Lexes (comma first ++ ls) text) :
    ∃ sep body, text = sep ++ body ∧ Separator first sep ∧ Lexes ls body := by
  cases first with
  | true => exact ⟨[], text, rfl, Blank.nil, lexes⟩
  | false =>
    obtain ⟨before, _, rest, blank, rfl, ⟨_⟩, more⟩ := lexes.leads
    exact ⟨before ++ [','], rest, by simp, ⟨before, [], blank, Blank.nil, rfl⟩, more⟩

mutual

theorem spells_value : ∀ {v : Json} {text : List Char} {ls : List Lexeme},
    Lexes (v.lexemes ++ ls) text → Leads (Spells v.doc) ls text
  | .null, _, _, lexes => lexes.leads.imp fun _ _ (.word _) => .null
  | .bool true, _, _, lexes => lexes.leads.imp fun _ _ (.word _) => .isTrue
  | .bool false, _, _, lexes => lexes.leads.imp fun _ _ (.word _) => .isFalse
  | .number _, _, _, lexes => lexes.leads.imp fun _ _ (.number _ ends) => .number ends
  | .string _, _, _, lexes => lexes.leads.imp fun _ _ (.string chars) => .string chars
  | .array vs, _, _, lexes => by
    obtain ⟨before, _, _, blank, rfl, ⟨_⟩, more⟩ := lexes.leads
    obtain ⟨rest, items, more⟩ := spells_items more
    exact ⟨before, _, rest, blank, rfl, .array items, more⟩
  | .object ms, _, _, lexes => by
    obtain ⟨before, _, _, blank, rfl, ⟨_⟩, more⟩ := lexes.leads
    obtain ⟨rest, members, more⟩ := spells_members more
    exact ⟨before, _, rest, blank, rfl, .object members, more⟩

theorem spells_items : ∀ {vs : List Json} {first : Bool} {text : List Char} {ls : List Lexeme},
    Lexes (itemLexemes first vs ++ ls) text →
      ∃ rest, SpellsItems first (docItems vs) text rest ∧ Lexes ls rest
  | [], _, _, _, lexes => by
    obtain ⟨before, _, rest, blank, rfl, ⟨_⟩, more⟩ := lexes.leads
    exact ⟨rest, .nil blank, more⟩
  | v :: vs, _, _, _, lexes => by
    rw [itemLexemes, List.append_assoc, List.append_assoc] at lexes
    obtain ⟨sep, _, rfl, mark, inside⟩ := lexes.unseparated
    obtain ⟨before, body, _, blank, rfl, value, others⟩ := spells_value inside
    obtain ⟨rest, items, more⟩ := spells_items others
    rw [← List.append_assoc]
    exact ⟨rest, .cons (mark.append blank) value items, more⟩

theorem spells_members : ∀ {ms : List (String × Json)} {first : Bool} {text : List Char}
    {ls : List Lexeme}, Lexes (memberLexemes first ms ++ ls) text →
      ∃ rest, SpellsMembers first (docMembers ms) text rest ∧ Lexes ls rest
  | [], _, _, _, lexes => by
    obtain ⟨before, _, rest, blank, rfl, ⟨_⟩, more⟩ := lexes.leads
    exact ⟨rest, .nil blank, more⟩
  | (k, v) :: ms, _, _, _, lexes => by
    rw [memberLexemes, List.append_assoc, List.append_assoc] at lexes
    obtain ⟨sep, _, rfl, mark, key⟩ := lexes.unseparated
    obtain ⟨before, _, _, blank, rfl, _ | _ | chars, colon⟩ := key.leads
    obtain ⟨left, _, _, blankLeft, rfl, ⟨_⟩, inside⟩ := colon.leads
    obtain ⟨right, body, _, blankRight, rfl, value, others⟩ := spells_value inside
    obtain ⟨rest, members, more⟩ := spells_members others
    have colon : Mark ':' (left ++ ':' :: right) := ⟨left, right, blankLeft, blankRight, rfl⟩
    rw [← List.append_assoc]
    exact ⟨rest, .cons (mark.append blank) (by simpa using chars) colon value members, more⟩

end

/-- A whole text is a spelling of `v` if and only if its lexemes are those of `v`. -/
theorem spellsText_iff_lexes {v : Json} : SpellsText v.doc text ↔ Lexes v.lexemes text := by
  constructor
  · rintro ⟨before, body, after, blank, blank', rfl, spells⟩
    have lexes := lexes_value spells (.nil blank')
    rw [List.append_nil] at lexes
    exact lexes.blank blank
  · intro lexes
    rw [← List.append_nil v.lexemes] at lexes
    obtain ⟨before, body, after, blank, rfl, spells, ⟨blank'⟩⟩ := spells_value lexes
    exact ⟨before, body, after, blank, blank', rfl, spells⟩

/-- The spellings of a value are the texts with the same lexemes. -/
theorem SpellsText.of_sameLexemes {v : Json} (spells : SpellsText v.doc text)
    (same : SameLexemes text text') : SpellsText v.doc text' := by
  obtain ⟨ls, lexes, lexes'⟩ := same
  obtain rfl := (spellsText_iff_lexes.mp spells).unique lexes
  exact spellsText_iff_lexes.mpr lexes'

end River.Json
