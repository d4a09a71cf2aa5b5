import River.Exchange
import River.Proofs.Exchange.Spelled

/-! A text spells one document: two readings of it differ only in what is not read. So it stands for
one content of a shape, however deep its brackets are nested. -/
namespace River.Exchange

open River.Json

/-- The documents are the same except where one of them is not read. -/
inductive Agrees : Doc → Doc → Prop where
  | unreadLeft : Agrees .unread d
  | unreadRight : Agrees d .unread
  | null : Agrees .null .null
  | bool : Agrees (.bool b) (.bool b)
  | number : Agrees (.number n) (.number n)
  | string : Agrees (.string s) (.string s)
  | array : ds.length = es.length →
      (∀ (i : Nat) d e, ds[i]? = some d → es[i]? = some e → Agrees d e) →
      Agrees (.array ds) (.array es)
  | object : ms.map Prod.fst = ns.map Prod.fst →
      (∀ (i : Nat) m n, ms[i]? = some m → ns[i]? = some n → Agrees m.2 n.2) →
      Agrees (.object ms) (.object ns)

theorem Agrees.cons_array (first : Agrees d e) (others : Agrees (.array ds) (.array es)) :
    Agrees (.array (d :: ds)) (.array (e :: es)) := by
  cases others with
  | array same each =>
    refine .array (by simp [same]) fun i x y left right => ?_
    cases i with
    | zero =>
      cases left
      cases right
      exact first
    | succ i => exact each i x y left right

theorem Agrees.cons_object (first : Agrees d e) (others : Agrees (.object ms) (.object ns)) :
    Agrees (.object ((key, d) :: ms)) (.object ((key, e) :: ns)) := by
  cases others with
  | object same each =>
    refine .object (by simp [same]) fun i x y left right => ?_
    cases i with
    | zero =>
      cases left
      cases right
      exact first
    | succ i => exact each i x y left right

theorem ne_toDigits (other : c.isDigit = false) : c :: text ≠ Nat.toDigits 10 n ++ rest := by
  obtain ⟨d, ds, digits, digit, _⟩ := head_toDigits n
  rw [digits]
  rintro ⟨⟩
  simp [other] at digit

theorem agrees_number (left : Spells (.number n) text rest) (right : Spells e text rest') :
    Agrees (.number n) e := by
  obtain rfl := Wellformed.unique left.wellformed right.wellformed
  cases left with
  | number ends =>
    generalize same : Nat.toDigits 10 n ++ rest = text at right
    cases right with
    | unread _ => exact .unreadRight
    | @number _ m _ =>
      have value := congrArg (Nat.ofDigitChars 10 · 0) (List.append_cancel_right same)
      simp only [Nat.ofDigitChars_ten_toDigits] at value
      exact value ▸ .number
    | _ => exact absurd same.symm (ne_toDigits (by decide))

/-- What separates an item from the one before ends where the item starts. -/
theorem item_unique (mark : Separator first sep) (mark' : Separator first sep')
    (left : Spells d text rest) (right : Spells e text' rest') (same : sep ++ text = sep' ++ text') :
    text = text' := by
  have next := nextItem_spelled mark left
  rw [same, nextItem_spelled mark' right] at next
  exact (Prod.mk.inj (Except.ok.inj next)).2.symm

theorem item_ne_end (mark : Separator first sep) (blank : Blank before)
    (spells : Spells d text rest) : sep ++ text ≠ before ++ ']' :: rest' := by
  intro same
  have next := nextItem_spelled mark spells
  rw [same, nextItem_end blank] at next
  cases next

theorem value_unique (blank : Blank before) (blank' : Blank after) (left : Spells d text rest)
    (right : Spells e text' rest') (same : before ++ text = after ++ text') : text = text' := by
  obtain ⟨c, cs, rfl, solid, _⟩ := left.solid
  obtain ⟨c', cs', rfl, solid', _⟩ := right.solid
  exact blanks_cancel blank blank' solid solid' same

theorem member_unique {k k' : String} (mark : Separator first sep) (mark' : Separator first sep')
    (chars : SpellsString k.toList key (sign ++ text))
    (chars' : SpellsString k'.toList key' (sign' ++ text')) (colon : Mark ':' sign)
    (colon' : Mark ':' sign') (left : Spells d text rest) (right : Spells e text' rest')
    (same : sep ++ '"' :: key = sep' ++ '"' :: key') : k = k' ∧ text = text' := by
  have next := nextKey_spelled mark key
  rw [same, nextKey_spelled mark' key'] at next
  obtain rfl := (Prod.mk.inj (Except.ok.inj next)).2
  obtain ⟨names, rests⟩ := chars.unique chars'
  obtain ⟨after, blank, skipped⟩ := colon_spelled colon
  obtain ⟨after', blank', skipped'⟩ := colon_spelled colon'
  have values := skipped text
  rw [rests, skipped' text'] at values
  exact ⟨String.toList_inj.mp names,
    (value_unique blank' blank right left (Except.ok.inj values)).symm⟩

theorem member_ne_end (mark : Separator first sep) (blank : Blank before) (key : List Char) :
    sep ++ '"' :: key ≠ before ++ '\x7d' :: rest := by
  intro same
  have next := nextKey_spelled mark key
  rw [same, nextKey_end blank] at next
  cases next

theorem SpellsItems.starts (sep : Separator first mark) (value : Wellformed text after)
    (spells : SpellsItems first ds (mark ++ text) rest) :
    ∃ e es, ds = e :: es ∧ Spells e text after ∧ SpellsItems false es after rest := by
  generalize same : mark ++ text = whole at spells
  cases spells with
  | nil blank => exact absurd same (item_ne_end sep blank (.unread value))
  | cons sep' value' more =>
    obtain rfl := item_unique sep sep' (.unread value) value' same
    obtain rfl := Wellformed.unique value value'.wellformed
    exact ⟨_, _, rfl, value', more⟩

theorem SpellsMembers.starts (sep : Separator first mark)
    (string : SpellsString k.toList key (sign ++ text)) (colon : Mark ':' sign)
    (value : Wellformed text after) (spells : SpellsMembers first ms (mark ++ '"' :: key) rest) :
    ∃ e ns, ms = (k, e) :: ns ∧ Spells e text after ∧ SpellsMembers false ns after rest := by
  generalize same : mark ++ '"' :: key = whole at spells
  cases spells with
  | nil blank => exact absurd same (member_ne_end sep blank _)
  | cons sep' string' colon' value' more =>
    obtain ⟨rfl, rfl⟩ :=
      member_unique sep sep' string string' colon colon' (.unread value) value' same
    obtain rfl := Wellformed.unique value value'.wellformed
    exact ⟨_, _, rfl, value', more⟩

theorem spells_bracket (spells : Spells d ('[' :: text) rest) :
    d = .unread ∨ ∃ ds, d = .array ds ∧ SpellsItems true ds text rest := by
  generalize same : '[' :: text = whole at spells
  cases spells with
  | unread => exact .inl rfl
  | number => exact absurd same (ne_toDigits (by decide))
  | array items =>
    cases same
    exact .inr ⟨_, rfl, items⟩
  | _ => cases same

theorem spells_brace (spells : Spells d ('\x7b' :: text) rest) :
    d = .unread ∨ ∃ ms, d = .object ms ∧ SpellsMembers true ms text rest := by
  generalize same : '\x7b' :: text = whole at spells
  cases spells with
  | unread => exact .inl rfl
  | number => exact absurd same (ne_toDigits (by decide))
  | object members =>
    cases same
    exact .inr ⟨_, rfl, members⟩
  | _ => cases same

mutual

theorem agrees_of_spells : ∀ {d e : Doc} {text rest rest' : List Char},
    Spells d text rest → Spells e text rest' → Agrees d e
  | _, _, _, _, _, .unread _, _ => .unreadLeft
  | _, _, _, _, _, .number ends, right => agrees_number (.number ends) right
  | _, _, _, _, _, .null, right => by
    generalize same : 'n' :: _ = text at right
    cases right with
    | unread _ => exact .unreadRight
    | number _ => exact absurd same (ne_toDigits (by decide))
    | null => exact .null
    | _ => cases same
  | _, _, _, _, _, .isTrue, right => by
    generalize same : 't' :: _ = text at right
    cases right with
    | unread _ => exact .unreadRight
    | number _ => exact absurd same (ne_toDigits (by decide))
    | isTrue => exact .bool
    | _ => cases same
  | _, _, _, _, _, .isFalse, right => by
    generalize same : 'f' :: _ = text at right
    cases right with
    | unread _ => exact .unreadRight
    | number _ => exact absurd same (ne_toDigits (by decide))
    | isFalse => exact .bool
    | _ => cases same
  | _, _, _, _, _, .string chars, right => by
    generalize same : '"' :: _ = text at right
    cases right with
    | unread _ => exact .unreadRight
    | number _ => exact absurd same (ne_toDigits (by decide))
    | string chars' =>
      cases same
      obtain rfl := String.toList_inj.mp (chars.unique chars').1
      exact .string
    | _ => cases same
  | _, _, _, _, _, .array items, right => by
    rcases spells_bracket right with rfl | ⟨es, rfl, items'⟩
    · exact .unreadRight
    · exact agrees_of_items items items' rfl
  | _, _, _, _, _, .object members, right => by
    rcases spells_brace right with rfl | ⟨ns, rfl, members'⟩
    · exact .unreadRight
    · exact agrees_of_members members members' rfl

theorem agrees_of_items : ∀ {ds es : List Doc} {first : Bool} {text text' rest rest' : List Char},
    SpellsItems first ds text rest → SpellsItems first es text' rest' → text = text' →
      Agrees (.array ds) (.array es)
  | _, _, _, _, _, _, _, .nil _, .nil _, _ => .array rfl (by simp)
  | _, _, _, _, _, _, _, .nil blank, .cons mark value _, same =>
    absurd same.symm (item_ne_end mark blank value)
  | _, _, _, _, _, _, _, .cons mark value more, right, same => by
    subst same
    obtain ⟨e, es, rfl, value', more'⟩ := SpellsItems.starts mark value.wellformed right
    exact .cons_array (agrees_of_spells value value') (agrees_of_items more more' rfl)

theorem agrees_of_members : ∀ {ms ns : List (String × Doc)} {first : Bool}
    {text text' rest rest' : List Char},
    SpellsMembers first ms text rest → SpellsMembers first ns text' rest' → text = text' →
      Agrees (.object ms) (.object ns)
  | _, _, _, _, _, _, _, .nil _, .nil _, _ => .object rfl (by simp)
  | _, _, _, _, _, _, _, .nil blank, .cons mark _ _ _ _, same =>
    absurd same.symm (member_ne_end mark blank _)
  | _, _, _, _, _, _, _, .cons mark chars colon value more, right, same => by
    subst same
    obtain ⟨e, ns, rfl, value', more'⟩ :=
      SpellsMembers.starts mark chars colon value.wellformed right
    exact .cons_object (agrees_of_spells value value') (agrees_of_members more more' rfl)

end

theorem SpellsText.agrees (left : SpellsText d text) (right : SpellsText e text) : Agrees d e := by
  obtain ⟨before, body, after, blank, _, rfl, spells⟩ := left
  obtain ⟨before', body', after', blank', _, same, spells'⟩ := right
  obtain rfl := value_unique blank blank' spells spells' same
  exact agrees_of_spells spells spells'

/-- What a text stands for is what a reader finds that may go deep enough. -/
theorem SpellsText.stands_for_one {s : Shape} {v w : s.Content} (left : SpellsText d text)
    (right : SpellsText e text) (means : Denotes s d v) (means' : Denotes s e w) : v = w := by
  obtain ⟨before, body, after, blank, _, rfl, spells⟩ := left
  obtain ⟨before', body', after', blank', _, same, spells'⟩ := right
  let depth := max d.nesting e.nesting
  have read := (read_spelled depth s d v before body after blank means spells).value
    (Nat.le_max_left _ _)
  have read' := (read_spelled depth s e w before' body' after' blank' means' spells').value
    (Nat.le_max_right _ _)
  rw [same, read'] at read
  exact (Prod.mk.inj (Except.ok.inj read)).1.symm

end River.Exchange

namespace River

/-- Files have different texts, nested as deep as they may be. -/
theorem File.toJson_inj (f g : File) : f.toJson = g.toJson ↔ f = g := by
  have means (f : File) : Exchange.Denotes (.record .file) f.json.doc f :=
    Exchange.denotes_json (.record .file) f ⟨(f.name, f.body, f.comments, ()), rfl⟩
  constructor
  · intro same
    have spells : Json.SpellsText f.json.doc f.toJson.toList := Json.spells_pretty f.json
    have spells' : Json.SpellsText g.json.doc f.toJson.toList := same ▸ Json.spells_pretty g.json
    exact Exchange.SpellsText.stands_for_one spells spells' (means f) (means g)
  · rintro rfl
    rfl

end River
