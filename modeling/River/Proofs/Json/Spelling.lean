import Mathlib.Tactic.SplitIfs
import River.Json.Doc
import River.Proofs.Json.Grammar

/-! The texts that spell a JSON document, each in front of what follows it. A character of a string
may stand for itself or be escaped, and what is not read may be anything well-formed. The printer
writes one of the spellings of a value. -/
namespace River.Json

/-- A character of a string: raw, escaped by a letter, by its number, or by two surrogates. -/
inductive SpellsChar (c : Char) : List Char → Prop where
  | raw : 0x20 ≤ c.toNat → c ≠ '"' → c ≠ '\\' → SpellsChar c [c]
  | letter : (letter, c) ∈ letterEscapes → SpellsChar c ['\\', letter]
  | word : HexWord c.toNat text → SpellsChar c ('\\' :: 'u' :: text)
  | surrogates : 0xffff < c.toNat → HexWord (0xd800 + (c.toNat - 0x10000) / 0x400) high →
      HexWord (0xdc00 + (c.toNat - 0x10000) % 0x400) low →
      SpellsChar c ('\\' :: 'u' :: (high ++ '\\' :: 'u' :: low))

inductive SpellsString : List Char → List Char → List Char → Prop where
  | nil : SpellsString [] ('"' :: rest) rest
  | cons : SpellsChar c mark → SpellsString cs text rest → SpellsString (c :: cs) (mark ++ text) rest

mutual

/-- A text that starts with a spelling of a document, and the rest of it. -/
inductive Spells : Doc → List Char → List Char → Prop where
  | unread : Wellformed text rest → Spells .unread text rest
  | null : Spells .null ('n' :: 'u' :: 'l' :: 'l' :: rest) rest
  | isTrue : Spells (.bool true) ('t' :: 'r' :: 'u' :: 'e' :: rest) rest
  | isFalse : Spells (.bool false) ('f' :: 'a' :: 'l' :: 's' :: 'e' :: rest) rest
  | number : EndsNumber rest → Spells (.number n) (Nat.toDigits 10 n ++ rest) rest
  | string : SpellsString s.toList text rest → Spells (.string s) ('"' :: text) rest
  | array : SpellsItems true ds text rest → Spells (.array ds) ('[' :: text) rest
  | object : SpellsMembers true ms text rest → Spells (.object ms) ('\x7b' :: text) rest

inductive SpellsItems : (first : Bool) → List Doc → List Char → List Char → Prop where
  | nil : Blank before → SpellsItems first [] (before ++ ']' :: rest) rest
  | cons : Separator first mark → Spells d text next → SpellsItems false ds next rest →
      SpellsItems first (d :: ds) (mark ++ text) rest

inductive SpellsMembers : (first : Bool) → List (String × Doc) → List Char → List Char → Prop where
  | nil : Blank before → SpellsMembers first [] (before ++ '\x7d' :: rest) rest
  | cons : Separator first mark → SpellsString k.toList key (sign ++ text) → Mark ':' sign →
      Spells d text next → SpellsMembers false ms next rest →
      SpellsMembers first ((k, d) :: ms) (mark ++ '"' :: key) rest

end

/-- A whole text that spells a document, with blanks around it. -/
def SpellsText (d : Doc) (text : List Char) : Prop :=
  ∃ before body after, Blank before ∧ Blank after ∧ text = before ++ body ∧ Spells d body after

theorem Blank.nil : Blank [] := by simp [Blank]

theorem blank_lineBreak (layout : Layout) (depth : Nat) : Blank (layout.lineBreak depth) := by
  cases layout with
  | compact => exact Blank.nil
  | indented =>
    intro c member
    simp only [Layout.lineBreak, List.mem_cons, List.mem_replicate] at member
    rcases member with rfl | ⟨_, rfl⟩ <;> rfl

theorem separator_comma (layout : Layout) (depth : Nat) :
    Separator false (',' :: layout.lineBreak depth) :=
  ⟨[], layout.lineBreak depth, Blank.nil, blank_lineBreak layout depth, rfl⟩

theorem mark_colon (layout : Layout) : Mark ':' layout.colon := by
  cases layout with
  | compact => exact ⟨[], [], Blank.nil, Blank.nil, rfl⟩
  | indented => exact ⟨[], [' '], Blank.nil, by simp [Blank, isBlank], rfl⟩

theorem endsNumber_lineBreak (layout : Layout) (depth : Nat) (close : EndsNumber (c :: rest)) :
    EndsNumber (layout.lineBreak depth ++ c :: rest) := by
  cases layout with
  | compact => exact close
  | indented => simp [EndsNumber, Layout.lineBreak]

/-- A character that has no letter and cannot stand raw is written by its number. -/
theorem spellsChar_escapeChar (c : Char) : SpellsChar c (escapeChar c) := by
  have escapes (letter d : Char) (member : (letter, d) ∈ letterEscapes) :
      SpellsChar d ['\\', letter] := .letter member
  unfold escapeChar
  split_ifs with quote backslash _ _ _ _ _ control
  all_goals try (subst c; exact escapes _ _ (by decide))
  · refine .word (.digits ?_ ?_ ?_ ?_)
    · exact ⟨by omega, .inl (by rw [Nat.div_eq_of_lt (by omega)]; rfl)⟩
    · exact ⟨by omega, .inl (by rw [Nat.div_eq_of_lt (by omega)]; rfl)⟩
    · exact ⟨by omega, .inl (by rw [Nat.mod_eq_of_lt (by omega)])⟩
    · exact ⟨by omega, .inl rfl⟩
  · exact .raw (by omega) quote backslash

theorem spellsString_escaped (cs rest : List Char) :
    SpellsString cs (cs.flatMap escapeChar ++ '"' :: rest) rest := by
  induction cs with
  | nil => exact .nil
  | cons c cs ih =>
    rw [List.flatMap_cons, List.append_assoc]
    exact .cons (spellsChar_escapeChar c) ih

theorem stringText_append (s : String) (rest : List Char) :
    stringText s ++ rest = '"' :: (s.toList.flatMap escapeChar ++ '"' :: rest) := by
  simp [stringText]

mutual

theorem spells_print (layout : Layout) : ∀ (v : Json) (depth : Nat) (rest : List Char),
    EndsNumber rest → Spells v.doc (print layout depth v rest) rest
  | .null, _, _, _ => .null
  | .bool true, _, _, _ => .isTrue
  | .bool false, _, _, _ => .isFalse
  | .number _, _, _, ends => .number ends
  | .string s, _, rest, _ => by
    rw [print, stringText_append]
    exact .string (spellsString_escaped s.toList rest)
  | .array [], _, _, _ => .array (.nil Blank.nil)
  | .array (v :: vs), depth, rest, _ =>
    have tail := spellsItems_print layout vs depth (depth + 1) rest
    .array (.cons (blank_lineBreak layout (depth + 1)) (spells_print layout v _ _ tail.2) tail.1)
  | .object [], _, _, _ => .object (.nil Blank.nil)
  | .object ((k, v) :: ms), depth, rest, _ => by
    have tail := spellsMembers_print layout ms depth (depth + 1) rest
    rw [print, printMember, stringText_append]
    exact .object (.cons (blank_lineBreak layout (depth + 1)) (spellsString_escaped _ _)
      (mark_colon layout) (spells_print layout v _ _ tail.2) tail.1)

/-- The items after the first one, up to the line of the closing bracket. What stands there ends
the number that may be the item before. -/
theorem spellsItems_print (layout : Layout) : ∀ (vs : List Json) (outer depth : Nat)
    (rest : List Char),
    SpellsItems false (docItems vs)
        (printItems layout depth vs (layout.lineBreak outer ++ ']' :: rest)) rest ∧
      EndsNumber (printItems layout depth vs (layout.lineBreak outer ++ ']' :: rest))
  | [], outer, _, _ =>
    ⟨.nil (blank_lineBreak layout outer), endsNumber_lineBreak layout outer (by simp [EndsNumber])⟩
  | v :: vs, outer, depth, rest =>
    have tail := spellsItems_print layout vs outer depth rest
    ⟨.cons (separator_comma layout depth) (spells_print layout v _ _ tail.2) tail.1,
      by simp [printItems, EndsNumber]⟩

theorem spellsMembers_print (layout : Layout) : ∀ (ms : List (String × Json)) (outer depth : Nat)
    (rest : List Char),
    SpellsMembers false (docMembers ms)
        (printMembers layout depth ms (layout.lineBreak outer ++ '\x7d' :: rest)) rest ∧
      EndsNumber (printMembers layout depth ms (layout.lineBreak outer ++ '\x7d' :: rest))
  | [], outer, _, _ =>
    ⟨.nil (blank_lineBreak layout outer), endsNumber_lineBreak layout outer (by simp [EndsNumber])⟩
  | (k, v) :: ms, outer, depth, rest => by
    have tail := spellsMembers_print layout ms outer depth rest
    refine ⟨?_, by simp [printMembers, EndsNumber]⟩
    rw [printMembers, printMember, stringText_append]
    exact .cons (separator_comma layout depth) (spellsString_escaped _ _) (mark_colon layout)
      (spells_print layout v _ _ tail.2) tail.1

end

theorem spells_pretty (v : Json) : SpellsText v.doc v.pretty.toList := by
  refine ⟨[], _, [], Blank.nil, Blank.nil, ?_, spells_print .indented v 0 [] (by simp [EndsNumber])⟩
  simp [pretty]

end River.Json
