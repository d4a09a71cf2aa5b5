import River.Proofs.Exchange.Denoting
import River.Proofs.Json.Skipping

/-! Every spelling of a document reads as what the document stands for, if its brackets are nested
no deeper than the reader may go. Otherwise reading ends at the first bracket that is too deep. -/
namespace River.Exchange

open River.Json

theorem ok_bind (a : α) (f : α → Except ε β) : (Except.ok a >>= f) = f a := rfl

/-- Reading ends with `v` in front of `rest` if `fits` holds, and else for want of depth. -/
structure Limited (fits : Prop) (v : α) (rest : List Char)
    (outcome : Except Failure (α × List Char)) : Prop where
  value : fits → outcome = .ok (v, rest)
  tooDeep : ¬fits → ∃ left, outcome = .error (.placed .tooDeep left)

namespace Limited

theorem of_ok (fits : p) : Limited p v rest (.ok (v, rest)) :=
  ⟨fun _ => rfl, fun h => absurd fits h⟩

theorem of_tooDeep (deep : ¬p) : Limited p v rest (.error (.placed .tooDeep left)) :=
  ⟨fun h => absurd h deep, fun _ => ⟨left, rfl⟩⟩

theorem congr (same : p ↔ q) (h : Limited p v rest outcome) : Limited q v rest outcome :=
  ⟨fun fits => h.value (same.mpr fits), fun deep => h.tooDeep (mt same.mp deep)⟩

theorem bind {next : α × List Char → Except Failure (β × List Char)}
    (first : Limited p v rest outcome) (second : p → Limited q w rest' (next (v, rest))) :
    Limited (p ∧ q) w rest' (outcome >>= next) := by
  constructor
  · rintro ⟨hp, hq⟩
    rw [first.value hp]
    exact (second hp).value hq
  · intro deep
    by_cases hp : p
    · rw [first.value hp]
      exact (second hp).tooDeep fun hq => deep ⟨hp, hq⟩
    · obtain ⟨left, failed⟩ := first.tooDeep hp
      exact ⟨left, by rw [failed]; rfl⟩

theorem map {next : α × List Char → Except Failure (β × List Char)}
    (first : Limited p v rest outcome) (result : next (v, rest) = .ok (w, rest')) :
    Limited p w rest' (outcome >>= next) :=
  congr (Iff.of_eq (and_true p)) (first.bind fun _ => result ▸ of_ok trivial)

/-- The end of a value is looked for in vain only if the value could not be read. -/
theorem closing {close : List Char → Option Cause × List Char}
    (inside : Limited p v rest outcome) (closed : close rest = (none, rest')) :
    Limited p v rest' (closing close outcome) := by
  constructor
  · intro fits
    simp [inside.value fits, Exchange.closing, closed]
  · intro deep
    obtain ⟨left, failed⟩ := inside.tooDeep deep
    exact ⟨left, by rw [failed]; rfl⟩

end Limited

theorem head_append (blank : Blank before) (text : List Char) : head (before ++ text) = head text := by
  simp only [head, skipBlanks_append blank]

theorem readWith_append (inner : Option ((s : Shape) → Reader s.Content)) (s : Shape)
    (blank : Blank before) (text : List Char) :
    readWith inner s (before ++ text) = readWith inner s text := by
  cases s <;> simp only [readWith, readWith.list, readPos, readText, readFlag, readLabel, readUnit,
    head_append blank, skipBlanks_append blank]

theorem read_append (depth : Nat) (s : Shape) (blank : Blank before) (text : List Char) :
    read depth s (before ++ text) = read depth s text := by
  cases depth <;> exact readWith_append _ s blank text

theorem head_number (fits : n < wordLimit) (ends : EndsNumber rest) :
    head (Nat.toDigits 10 n ++ rest) = .ok (.number (.natural n), rest) := by
  obtain ⟨c, cs, digits, digit, _⟩ := head_toDigits n
  have solid := (digit_starts_number digit).1
  have read := readNumber_digits n fits ends
  rw [digits, List.cons_append] at read ⊢
  unfold head
  rw [skipBlanks_cons solid]
  split
  case h_8 heq =>
    obtain ⟨rfl, rfl⟩ := List.cons.inj heq
    simp [digit, read, Functor.map, Except.map]
  all_goals simp_all

theorem head_string (spells : SpellsString cs text rest) :
    head ('"' :: text) = .ok (.string cs, rest) := by
  simp [head, skipBlanks_quote, readString_spelled spells, bind, Except.bind, pure, Except.pure]

theorem readPos_spelled (means : Denotes .pos d p) (spells : Spells d text rest) :
    readPos text = .ok (p, rest) := by
  cases means with
  | unplaced => cases spells; rfl
  | offset fits =>
    cases spells with
    | number ends => simp [readPos, head_number fits ends, ok_bind, pure, Except.pure]

theorem readText_spelled (means : Denotes .text d s) (spells : Spells d text rest) :
    readText text = .ok (s, rest) := by
  cases means
  cases spells with
  | string chars => simp [readText, head_string chars, ok_bind, pure, Except.pure]

theorem readFlag_spelled (means : Denotes .flag d b) (spells : Spells d text rest) :
    readFlag text = .ok (b, rest) := by
  cases means
  cases spells <;> rfl

theorem readLabel_spelled (means : Denotes .label d l) (spells : Spells d text rest) :
    readLabel text = .ok (l, rest) := by
  cases means with
  | noLabel => cases spells; rfl
  | label =>
    cases spells with
    | string chars => simp [readLabel, head_string chars, ok_bind, pure, Except.pure]

theorem readUnit_spelled (means : Denotes .unit d u) (spells : Spells d text rest) :
    readUnit text = .ok ((), rest) := by
  cases means
  cases spells
  rfl

theorem Denotes.shallow (means : Denotes s d v) (depth : Nat)
    (scalar : s = .pos ∨ s = .text ∨ s = .flag ∨ s = .label ∨ s = .unit) : d.nesting ≤ depth := by
  cases means <;> first
    | exact Nat.zero_le depth
    | simp at scalar

theorem nextItem_spelled (mark : Separator first sep) (spells : Spells d text rest) :
    nextItem first (sep ++ text) = .ok (true, text) := by
  obtain ⟨c, cs, rfl, solid, notEnd⟩ := spells.solid
  cases first with
  | true => simp [nextItem, skipBlanks_append mark, skipBlanks_cons solid]
  | false =>
    obtain ⟨after, blank, skipped⟩ := skipBlanks_mark mark rfl
    simp [nextItem, skipped, skipBlanks_append blank, skipBlanks_cons solid, notEnd]

theorem nextItem_end (blank : Blank before) (first : Bool) (rest : List Char) :
    nextItem first (before ++ ']' :: rest) = .ok (false, ']' :: rest) := by
  have bracket : skipBlanks (']' :: rest) = ']' :: rest := rfl
  simp [nextItem, skipBlanks_append blank, bracket]

/-- `read` reads every spelling of every document, blanks before it included. -/
def Reads (depth : Nat) (read : (s : Shape) → Reader s.Content) : Prop :=
  ∀ s d v before text rest, Blank before → Denotes s d v → Spells d text rest →
    Limited (d.nesting ≤ depth) v rest (read s (before ++ text))

variable {read : (s : Shape) → Reader s.Content} {ds : List Doc} {ms : List (String × Doc)}
  {first : Bool} {text clock : List Char}

/-- A list is read item by item; the clock runs long enough. -/
theorem items_spelled (reads : Reads depth read) {item : Shape} {vs : List item.Content}
    (same : ds.length = vs.length)
    (means : ∀ (i : Nat) d v, ds[i]? = some d → vs[i]? = some v → Denotes item d v)
    (spells : SpellsItems first ds text rest) (enough : ds.length < clock.length) :
    Limited (Doc.itemsNesting ds ≤ depth) vs (']' :: rest) (items (read item) clock first text) := by
  induction ds generalizing vs first text clock with
  | nil =>
    obtain _ | ⟨tick, clock⟩ := clock
    · simp at enough
    obtain rfl : vs = [] := List.eq_nil_of_length_eq_zero same.symm
    cases spells with
    | nil blank =>
      simp only [items, nextItem_end blank, ok_bind]
      exact .of_ok (Nat.zero_le depth)
  | cons d ds ih =>
    obtain _ | ⟨tick, clock⟩ := clock
    · simp at enough
    obtain _ | ⟨v, vs⟩ := vs
    · simp at same
    cases spells with
    | cons mark value more =>
      simp only [items, nextItem_spelled mark value, ok_bind]
      have rest := ih (Nat.succ.inj same) (fun i => means (i + 1)) more (by simpa using enough)
      have item := reads item d v [] _ _ Blank.nil (means 0 d v rfl rfl) value
      exact .congr (Iff.symm Nat.max_le) (item.bind fun _ => rest.map rfl)

theorem elements_spelled (reads : Reads depth read) (expected : String) (fields : Fields)
    (row : Row fields) (count : Nat) (same : ds.length = fields.length)
    (means : ∀ (i : Nat) d e, ds[i]? = some d → (Row.entries fields row)[i]? = some e →
      Denotes e.shape d e.value)
    (spells : SpellsItems (count == 0) ds text rest) :
    ∃ left, listEnd left = (none, rest) ∧
      Limited (Doc.itemsNesting ds ≤ depth) row left (elements read expected fields count text) := by
  induction fields generalizing ds count text with
  | nil =>
    obtain rfl : ds = [] := List.eq_nil_of_length_eq_zero same
    cases spells with
    | nil blank =>
      have bracket : skipBlanks (']' :: rest) = ']' :: rest := rfl
      exact ⟨_, by simp [listEnd, skipBlanks_append blank, bracket],
        .of_ok (Nat.zero_le depth)⟩
  | cons field fields ih =>
    obtain _ | ⟨d, ds⟩ := ds
    · simp at same
    obtain ⟨name, s⟩ := field
    obtain ⟨v, row⟩ := row
    cases spells with
    | cons mark value more =>
      obtain ⟨left, ended, later⟩ := ih row (count + 1) (Nat.succ.inj same)
        (fun i => means (i + 1)) more
      have field := reads s d v [] _ _ Blank.nil (means 0 d ⟨name, s, v⟩ rfl rfl) value
      refine ⟨left, ended, ?_⟩
      simp only [elements, nextItem_spelled mark value, ok_bind]
      exact .congr (Iff.symm Nat.max_le) (field.bind fun _ => later.map rfl)

/-- The slots of a row of which the fields with these names have been read. -/
def Slots.of (names : List String) : (fields : Fields) → Row fields → Slots fields
  | [], () => ()
  | (name, _) :: fields, (v, row) => (if name ∈ names then some v else none, of names fields row)

theorem Slots.empty_eq (fields : Fields) (row : Row fields) : empty fields = of [] fields row := by
  induction fields with
  | nil => rfl
  | cons field fields ih => simp [empty, of, ih row.2]

theorem Slots.of_cons_other (fields : Fields) (row : Row fields)
    (other : name ∉ fields.map Prod.fst) : of (name :: names) fields row = of names fields row := by
  induction fields with
  | nil => rfl
  | cons field fields ih =>
    simp only [List.map_cons, List.mem_cons, not_or] at other
    simp [of, ih row.2 other.2, Ne.symm other.1]

/-- Once every field has been read that must not be absent, the row is complete. -/
theorem Slots.complete_of (names : List String) (fields : Fields) (row : Row fields)
    (read : ∀ e ∈ Row.entries fields row, e.name ∈ names ∨ e.shape.absent? = some e.value) :
    complete fields (of names fields row) = .ok row := by
  induction fields with
  | nil => rfl
  | cons field fields ih =>
    have rest := ih row.2 fun e member => read e (by simp [Row.entries, member])
    have slot : (if field.1 ∈ names then some row.1 else none).or field.2.absent? = some row.1 := by
      have first := read ⟨field.1, field.2, row.1⟩ (by simp [Row.entries])
      split
      · rfl
      · next unread => exact first.resolve_left unread
    simp [complete, of, slot, rest, bind, Except.bind, pure, Except.pure]

/-- A key that names a field not yet read is followed by that field's value. -/
theorem Slots.fill?_of {e : Entry} (fields : Fields)
    (row : Row fields) (distinct : (fields.map Prod.fst).Nodup)
    (member : e ∈ Row.entries fields row) (unread : e.name ∉ names)
    (value : Limited p e.value rest (colon text >>= read e.shape)) :
    ∃ filled, (of names fields row).fill? read e.name fields text = some filled ∧
      Limited p (of (e.name :: names) fields row) rest filled := by
  induction fields with
  | nil => simp [Row.entries] at member
  | cons field fields ih =>
    obtain ⟨name, s⟩ := field
    obtain ⟨v, row⟩ := row
    simp only [List.map_cons, List.nodup_cons] at distinct
    rcases List.mem_cons.mp member with rfl | later
    · simp only [of, if_neg unread, fill?, if_true]
      refine ⟨_, rfl, ?_⟩
      rw [← bind_assoc]
      apply value.map
      simp [of_cons_other fields row distinct.1, pure, Except.pure]
    · have other : name ≠ e.name := by
        rintro rfl
        exact distinct.1 (Row.names_entries fields row ▸ List.mem_map_of_mem later)
      obtain ⟨filled, found, limited⟩ := ih row distinct.2 later
      simp only [of, fill?, if_neg other, found, Option.map_some]
      refine ⟨_, rfl, limited.map ?_⟩
      simp [other, pure, Except.pure]

theorem Slots.fill?_other (fields : Fields) (slots : Slots fields) (text : List Char)
    (other : key ∉ fields.map Prod.fst) : slots.fill? read key fields text = none := by
  induction fields with
  | nil => rfl
  | cons field fields ih =>
    simp only [List.map_cons, List.mem_cons, not_or] at other
    simp [fill?, Ne.symm other.1, ih slots.2 other.2]

theorem nextKey_spelled (mark : Separator first sep) (key : List Char) :
    nextKey first (sep ++ '"' :: key) = .ok (true, key) := by
  cases first with
  | true => simp [nextKey, skipBlanks_append mark, skipBlanks_quote]
  | false =>
    obtain ⟨after, blank, skipped⟩ := skipBlanks_mark mark rfl
    simp [nextKey, skipped, skipBlanks_append blank, skipBlanks_quote]

theorem nextKey_end (blank : Blank before) (first : Bool) (rest : List Char) :
    nextKey first (before ++ '\x7d' :: rest) = .ok (false, '\x7d' :: rest) := by
  simp [nextKey, skipBlanks_append blank, skipBlanks_brace]

theorem colon_spelled (mark : Mark ':' sep) :
    ∃ after, Blank after ∧ ∀ text, colon (sep ++ text) = .ok (after ++ text) := by
  obtain ⟨after, blank, skipped⟩ := skipBlanks_mark mark rfl
  exact ⟨after, blank, fun text => by simp [colon, skipped]⟩

/-- How members go with the fields of a row: each field stands once at most, and the other members
are not read. -/
structure Members (fields : Fields) (row : Row fields) (ms : List (String × Doc)) : Prop where
  once : (ms.map Prod.fst).Pairwise fun k l => k = l → k ∉ fields.map Prod.fst
  others : ∀ m ∈ ms, m.1 ∉ fields.map Prod.fst → m.2 = .unread
  value : ∀ e ∈ Row.entries fields row, ∀ d, (e.name, d) ∈ ms → Denotes e.shape d e.value

theorem Members.tail {fields : Fields} {row : Row fields} (means : Members fields row (m :: ms)) :
    Members fields row ms :=
  ⟨means.once.tail, fun n member => means.others n (by simp [member]),
    fun e inside d member => means.value e inside d (by simp [member])⟩

/-- An object is read member by member, each into the slot of its own field. -/
theorem members_spelled (reads : Reads depth read) (fields : Fields) (row : Row fields)
    (distinct : (fields.map Prod.fst).Nodup) (names : List String)
    (means : Members fields row ms)
    (unread : ∀ m ∈ ms, m.1 ∈ fields.map Prod.fst → m.1 ∉ names)
    (spells : SpellsMembers first ms text rest) (enough : ms.length < clock.length) :
    Limited (Doc.membersNesting ms ≤ depth)
      (Slots.of ((ms.map Prod.fst).reverse ++ names) fields row) ('\x7d' :: rest)
      (members read fields clock first (Slots.of names fields row) text) := by
  induction ms generalizing first names text clock with
  | nil =>
    obtain _ | ⟨tick, clock⟩ := clock
    · simp at enough
    cases spells with
    | nil blank =>
      simp only [members, nextKey_end blank, ok_bind]
      exact .of_ok (Nat.zero_le depth)
  | cons m ms ih =>
    obtain _ | ⟨tick, clock⟩ := clock
    · simp at enough
    obtain ⟨k, d⟩ := m
    cases spells with
    | cons mark chars sign value more =>
      obtain ⟨after, blank, skipped⟩ := colon_spelled sign
      have later : ∀ m ∈ ms, m.1 ∈ fields.map Prod.fst → m.1 ∉ k :: names := by
        intro m member known repeated
        rcases List.mem_cons.mp repeated with same | before
        · exact (List.pairwise_cons.mp means.once).1 m.1 (List.mem_map_of_mem member) same.symm
            (same ▸ known)
        · exact unread m (by simp [member]) known before
      have rest := ih (k :: names) means.tail later more (by simpa using enough)
      simp only [members, nextKey_spelled mark, readString_spelled chars, ok_bind,
        String.ofList_toList, List.map_cons, List.reverse_cons, List.append_assoc]
      by_cases known : k ∈ fields.map Prod.fst
      · obtain ⟨e, inside, rfl⟩ := List.mem_map.mp (Row.names_entries fields row ▸ known)
        have field := reads e.shape d e.value after _ _ blank
          (means.value e inside d (by simp)) value
        obtain ⟨filled, found, limited⟩ := Slots.fill?_of fields row distinct inside
          (unread (e.name, d) (by simp) known) (by rw [skipped, ok_bind]; exact field)
        simp only [found]
        exact .congr (Iff.symm Nat.max_le) (limited.bind fun _ => rest)
      · -- no field has this name, so the slots stay as they are
        obtain rfl : d = .unread := means.others (k, d) (by simp) known
        cases value with
        | unread value =>
          simp only [Slots.fill?_other fields _ _ known, skipped, ok_bind,
            skipValue_wellformed blank value]
          rw [Slots.of_cons_other fields row known] at rest
          exact .congr (by simp [Doc.membersNesting, Doc.memberNesting, Doc.nesting]) rest

theorem objectRow_spelled (reads : Reads depth read) (fields : Fields) (row : Row fields)
    (distinct : (fields.map Prod.fst).Nodup) (means : Members fields row ms)
    (present : ∀ e ∈ Row.entries fields row,
      e.name ∈ ms.map Prod.fst ∨ e.shape.absent? = some e.value)
    (spells : SpellsMembers true ms text rest) :
    Limited (Doc.membersNesting ms ≤ depth) row ('\x7d' :: rest) (objectRow read fields text) := by
  have enough : ms.length < text.length := by
    have := spells.length_lt
    omega
  have slots := members_spelled reads fields row distinct [] means (by simp) spells enough
  have complete := Slots.complete_of ((ms.map Prod.fst).reverse ++ []) fields row fun e member =>
    (present e member).imp (by simp) id
  rw [objectRow, Slots.empty_eq fields row]
  exact slots.map (by simp only [complete]; rfl)

theorem taggedVariant_spelled (reads : Reads depth read) {variants : List (Variant α)}
    {variant : Variant α} {w : variant.payload.Content}
    (found : variants.find? (·.name == name) = some variant)
    (means : Denotes variant.payload d w) (spells : SpellsMembers true [(name, d)] text rest) :
    Limited (d.nesting ≤ depth) (variant.make w) rest (taggedVariant read variants text) := by
  cases spells with
  | cons mark chars sign value more =>
    cases more with
    | nil blank =>
      obtain ⟨after, blank', skipped⟩ := colon_spelled sign
      have inside := reads variant.payload d w after _ _ blank' means value
      simp only [taggedVariant, skipBlanks_append mark, skipBlanks_quote, readString_spelled chars,
        ok_bind, String.ofList_toList, findVariant, found, skipped]
      exact inside.map (by simp only [skipBlanks_append blank, skipBlanks_brace]; rfl)

theorem bareVariant_spelled {variants : List (Variant α)} {make : Unit → α}
    (found : variants.find? (·.name == name) = some ⟨name, .unit, make⟩) (rest : List Char) :
    (findVariant variants name rest >>= bareVariant rest) = .ok (make (), rest) := by
  simp only [findVariant, found, ok_bind, bareVariant]

/-- What stands inside of brackets that may be nested `depth` deep is read by `inner`. -/
def ReadsInside (depth : Nat) : Option ((s : Shape) → Reader s.Content) → Prop
  | none => depth = 0
  | some read => ∃ below, depth = below + 1 ∧ Reads below read

variable {inner : Option ((s : Shape) → Reader s.Content)}

theorem list_spelled (inside : ReadsInside depth inner) {item : Shape} {vs : List item.Content}
    (means : Denotes (.list item) d vs) (spells : Spells d text rest) :
    Limited (d.nesting ≤ depth) vs rest (readWith.list inner item text) := by
  cases means with
  | list same each =>
    cases spells with
    | @array _ text _ spelled =>
      have bracket : head ('[' :: text) = .ok (.array, '[' :: text) := rfl
      simp only [readWith.list, bracket, ok_bind, Doc.nesting]
      cases inner with
      | none =>
        obtain rfl : depth = 0 := inside
        exact .of_tooDeep (by omega)
      | some read =>
        obtain ⟨below, rfl, reads⟩ := inside
        have enough := spelled.length_lt
        have all : Limited _ vs (']' :: rest) (items (read item) text true text) :=
          items_spelled reads same each spelled (by omega)
        exact .congr Nat.succ_le_succ_iff.symm (all.closing rfl)

theorem record_spelled (inside : ReadsInside depth inner) {r : Record} {v : r.Content}
    (means : Denotes (.record r) d v) (spells : Spells d text rest) :
    Limited (d.nesting ≤ depth) v rest (readWith inner (.record r) text) := by
  cases means with
  | @elements ds _ row same each =>
    cases spells with
    | @array _ text _ spelled =>
      have bracket : head ('[' :: text) = .ok (.array, '[' :: text) := rfl
      simp only [readWith, bracket, ok_bind, Doc.nesting]
      cases inner with
      | none =>
        obtain rfl : depth = 0 := inside
        exact .of_tooDeep (by omega)
      | some read =>
        obtain ⟨below, rfl, reads⟩ := inside
        obtain ⟨left, ended, fields⟩ := elements_spelled reads
          (r.expectation ++ " with " ++ r.fields.length.repr ++ " elements") r.fields row 0 same each
          spelled
        exact .congr Nat.succ_le_succ_iff.symm ((fields.closing ended).map rfl)
  | @members ms _ row once others present value =>
    cases spells with
    | @object _ text _ spelled =>
      have brace : head ('\x7b' :: text) = .ok (.object, '\x7b' :: text) := rfl
      simp only [readWith, brace, ok_bind, Doc.nesting]
      cases inner with
      | none =>
        obtain rfl : depth = 0 := inside
        exact .of_tooDeep (by omega)
      | some read =>
        obtain ⟨below, rfl, reads⟩ := inside
        have fields := objectRow_spelled reads r.fields row r.names_distinct
          ⟨once, others, value⟩ present spelled
        have closed : Limited _ row rest (closing objectEnd (objectRow read r.fields text)) :=
          fields.closing rfl
        exact .congr Nat.succ_le_succ_iff.symm (closed.map rfl)

theorem choice_spelled (inside : ReadsInside depth inner) {c : Choice} {v : c.Content}
    (means : Denotes (.choice c) d v) (spells : Spells d text rest) :
    Limited (d.nesting ≤ depth) v rest (readWith inner (.choice c) text) := by
  cases means with
  | bare found =>
    cases spells with
    | string chars =>
      simp only [readWith, skipBlanks_quote, readString_spelled chars, ok_bind,
        String.ofList_toList, bareVariant_spelled found]
      exact .of_ok (Nat.zero_le depth)
  | @tagged _ name d variant w found means =>
    cases spells with
    | @object _ text _ spelled =>
      have brace : skipBlanks ('\x7b' :: text) = '\x7b' :: text := rfl
      simp only [readWith, brace, Doc.nesting, Doc.membersNesting, Doc.memberNesting, Nat.max_zero]
      cases inner with
      | none =>
        obtain rfl : depth = 0 := inside
        exact .of_tooDeep (by omega)
      | some read =>
        obtain ⟨below, rfl, reads⟩ := inside
        exact .congr Nat.succ_le_succ_iff.symm (taggedVariant_spelled reads found means spelled)

theorem readWith_spelled (inside : ReadsInside depth inner) {s : Shape} {v : s.Content}
    (means : Denotes s d v) (spells : Spells d text rest) :
    Limited (d.nesting ≤ depth) v rest (readWith inner s text) := by
  cases s with
  | pos =>
    simp only [readWith, readPos_spelled means spells]
    exact .of_ok (means.shallow depth (by simp))
  | text =>
    simp only [readWith, readText_spelled means spells]
    exact .of_ok (means.shallow depth (by simp))
  | flag =>
    simp only [readWith, readFlag_spelled means spells]
    exact .of_ok (means.shallow depth (by simp))
  | label =>
    simp only [readWith, readLabel_spelled means spells]
    exact .of_ok (means.shallow depth (by simp))
  | unit =>
    simp only [readWith, readUnit_spelled means spells]
    exact .of_ok (means.shallow depth (by simp))
  | blockName =>
    cases means with
    | blockName parts => exact (list_spelled inside parts spells).map rfl
  | list item => exact list_spelled inside means spells
  | record r => exact record_spelled inside means spells
  | choice c => exact choice_spelled inside means spells

theorem read_spelled (depth : Nat) : Reads depth (Exchange.read depth) := by
  induction depth with
  | zero =>
    intro s d v before text rest blank means spells
    have inside : ReadsInside 0 none := rfl
    rw [read_append 0 s blank]
    exact readWith_spelled inside means spells
  | succ depth ih =>
    intro s d v before text rest blank means spells
    have inside : ReadsInside (depth + 1) (some (Exchange.read depth)) := ⟨depth, rfl, ih⟩
    rw [read_append (depth + 1) s blank]
    exact readWith_spelled inside means spells

theorem readAll_spelled {s : Shape} {v : s.Content} (means : Denotes s d v) (blank : Blank before)
    (spells : Spells d text after) (blank' : Blank after) :
    (d.nesting ≤ depthLimit → readAll s (before ++ text) = .ok v) ∧
    (depthLimit < d.nesting →
      ∃ left, readAll s (before ++ text) = .error (.placed .tooDeep left)) := by
  have outcome := read_spelled depthLimit s d v before text after blank means spells
  constructor
  · intro shallow
    have ended : skipBlanks after = [] := by
      simpa [skipBlanks] using skipBlanks_append blank' []
    simp only [readAll, outcome.value shallow, ok_bind, ended]
    rfl
  · intro deep
    obtain ⟨left, failed⟩ := outcome.tooDeep (by omega)
    exact ⟨left, by simp only [readAll, failed]; rfl⟩

end River.Exchange
