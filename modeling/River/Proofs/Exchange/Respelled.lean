import River.Proofs.Exchange.Refused
import River.Proofs.Json.Lexemes

/-! Reading depends on the lexemes of a text, not on the blanks between them nor on how strings are
spelled. -/
namespace River.Exchange

open River.Json

/-- A file is read back from every text that has the lexemes of its own. -/
theorem fromJson_of_sameLexemes (f : File) (shallow : f.json.nesting ≤ 127) (text : String)
    (same : SameLexemes f.toJson.toList text.toList) : File.fromJson text = .ok f := by
  have written : SpellsText f.json.doc f.toJson.toList := spells_pretty f.json
  have means : Denotes (.record .file) f.json.doc f :=
    denotes_json (.record .file) f ⟨(f.name, f.body, f.comments, ()), rfl⟩
  rw [← nesting_doc] at shallow
  exact fromJson_ok_iff.mpr ⟨f.json.doc, written.of_sameLexemes same, means, shallow⟩

def smiley : File := ⟨"😀/", [], []⟩

/-- A key with an escaped letter, a name with surrogates in both cases of hexadecimal and with an
escaped slash, and blanks of every kind. -/
def smileyText : String :=
  "\t\x7b \r\n\"\\u006eame\" :\"\\ud83D\\uDE00\\/\" ,\"body\":[\n],\"comments\": []\x7d\n"

theorem spells_smileyText : SpellsText smiley.json.doc smileyText.toList := by
  have lower (n : Fin 16) : HexDigit n (hexDigit n) := ⟨n.isLt, .inl rfl⟩
  have upper (n : Fin 16) : HexDigit n (hexDigit n).toUpper := ⟨n.isLt, .inr rfl⟩
  have n : SpellsChar 'n' ['\\', 'u', '0', '0', '6', 'e'] :=
    .word (.digits (lower 0) (lower 0) (lower 6) (lower 14))
  have high : HexWord 0xd83d ['d', '8', '3', 'D'] :=
    .digits (lower 13) (lower 8) (lower 3) (upper 13)
  have low : HexWord 0xde00 ['D', 'E', '0', '0'] :=
    .digits (upper 13) (upper 14) (lower 0) (lower 0)
  have smile : SpellsChar '😀'
      ('\\' :: 'u' :: (['d', '8', '3', 'D'] ++ '\\' :: 'u' :: ['D', 'E', '0', '0'])) :=
    .surrogates (by decide) high low
  have slash : SpellsChar '/' ['\\', '/'] := .letter (by decide)
  have name (rest : List Char) : SpellsString "name".toList _ rest :=
    .cons n (spellsString_escaped ['a', 'm', 'e'] rest)
  have mark (sign : Char) (before after : List Char) (blank : Blank before)
      (blank' : Blank after) : Mark sign (before ++ sign :: after) :=
    ⟨before, after, blank, blank', rfl⟩
  have first : Separator true [' ', '\r', '\n'] := by simp [Separator, Blank, isBlank]
  refine ⟨['\t'], _, ['\n'], by decide, by decide, ?_, .object
    (.cons first (name _) (mark ':' [' '] [] (by decide) Blank.nil)
      (.string (.cons smile (.cons slash .nil)))
    (.cons (mark ',' [' '] [] (by decide) Blank.nil) (spellsString_escaped _ _)
      (mark ':' [] [] Blank.nil Blank.nil) (.array (.nil (show Blank ['\n'] by decide)))
    (.cons (mark ',' [] [] Blank.nil Blank.nil) (spellsString_escaped _ _)
      (mark ':' [] [' '] Blank.nil (by decide)) (.array (.nil Blank.nil)) (.nil Blank.nil))))⟩
  decide +kernel

theorem fromJson_smileyText : smiley.json.nesting ≤ 127 ∧
    SameLexemes smiley.toJson.toList smileyText.toList ∧ File.fromJson smileyText = .ok smiley := by
  have same : SameLexemes smiley.toJson.toList smileyText.toList :=
    ⟨smiley.json.lexemes, spellsText_iff_lexes.mp (spells_pretty smiley.json),
      spellsText_iff_lexes.mp spells_smileyText⟩
  have shallow : smiley.json.nesting ≤ 127 := by decide
  exact ⟨shallow, same, fromJson_of_sameLexemes smiley shallow smileyText same⟩

end River.Exchange
