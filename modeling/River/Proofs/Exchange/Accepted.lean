import River.Proofs.Exchange.Spelled
import River.Proofs.Exchange.Yields
import River.Proofs.Json.Skipped

/-! A reader accepts nothing but the spellings of documents that stand for contents of its shape, and
yields what they stand for. -/
namespace River.Exchange

open River.Json

/-- A text that starts with a document for `v`, nested no deeper than `depth`, and blanks before. -/
def Carries (depth : Nat) (s : Shape) (v : s.Content) (text rest : List Char) : Prop :=
  ∃ d before body, Blank before ∧ text = before ++ body ∧ Spells d body rest ∧ Denotes s d v ∧
    d.nesting ≤ depth

/-- What is accepted is a document. Where a number ends depends on what follows it. -/
def Accepts (depth : Nat) (s : Shape) (read : Reader s.Content) : Prop :=
  ∀ text v rest, read text = .ok (v, rest) → EndsNumber rest → Carries depth s v text rest

/-- What stands where a head has been seen. -/
def HeadAt (rest body : List Char) : Head → Prop
  | .null => Spells .null body rest
  | .bool b => Spells (.bool b) body rest
  | .number (.natural n) => n < wordLimit ∧ Spells (.number n) body rest
  | .number _ => True
  | .string s => Spells (.string (String.ofList s)) body rest
  | .array => ∃ more, body = '[' :: more ∧ rest = '[' :: more
  | .object => ∃ more, body = '\x7b' :: more ∧ rest = '\x7b' :: more

theorem head_ok (h : head text = .ok (seen, rest)) :
    ∃ before body, Blank before ∧ text = before ++ body ∧ HeadAt rest body seen := by
  obtain ⟨before, blank, split⟩ := skipBlanks_split text
  refine ⟨before, skipBlanks text, blank, split, ?_⟩
  unfold head at h
  split at h
  · cases h
  · next start =>
    obtain ⟨text', letters, h⟩ := of_bind_ok h
    cases h
    rw [start, word_ok letters]
    exact .null
  · next start =>
    obtain ⟨text', letters, h⟩ := of_bind_ok h
    cases h
    rw [start, word_ok letters]
    exact .isTrue
  · next start =>
    obtain ⟨text', letters, h⟩ := of_bind_ok h
    cases h
    rw [start, word_ok letters]
    exact .isFalse
  · next start =>
    obtain ⟨⟨chars, text'⟩, string, h⟩ := of_bind_ok h
    cases h
    rw [start]
    refine .string ?_
    rw [String.toList_ofList]
    exact readString_ok string
  · next start =>
    cases h
    exact ⟨_, start, rfl⟩
  · next start =>
    cases h
    exact ⟨_, start, rfl⟩
  · next c more _ _ _ _ _ _ start =>
    split at h
    · obtain ⟨⟨n, text'⟩, number, h⟩ := of_bind_ok h
      cases h
      rcases n with n | n | x
      · obtain ⟨fits, ends, same⟩ := readNumber_natural number
        rw [start, same]
        exact ⟨fits, .number ends⟩
      · trivial
      · trivial
    · cases h

theorem accepts_head {next : Head × List Char → Except Failure (s.Content × List Char)}
    (step : ∀ seen text v rest body, next (seen, text) = .ok (v, rest) → HeadAt text body seen →
      ∃ d, Spells d body rest ∧ Denotes s d v ∧ d.nesting ≤ depth) :
    Accepts depth s fun text => head text >>= next := by
  intro text v rest h _
  obtain ⟨⟨seen, text'⟩, first, h⟩ := of_bind_ok h
  obtain ⟨before, body, blank, same, spelled⟩ := head_ok first
  obtain ⟨d, spells, means, shallow⟩ := step seen text' v rest body h spelled
  exact ⟨d, before, body, blank, same, spells, means, shallow⟩

theorem readPos_accepts : Accepts depth .pos readPos := by
  refine accepts_head fun seen text v rest body h spelled => ?_
  split at h
  · next same =>
    obtain ⟨rfl, rfl⟩ := Prod.mk.inj same
    cases h
    exact ⟨.null, spelled, .unplaced, Nat.zero_le depth⟩
  · next same =>
    obtain ⟨rfl, rfl⟩ := Prod.mk.inj same
    cases h
    exact ⟨_, spelled.2, .offset spelled.1, Nat.zero_le depth⟩
  · cases h
  · cases h

theorem readText_accepts : Accepts depth .text readText := by
  refine accepts_head fun seen text v rest body h spelled => ?_
  split at h
  · next same =>
    obtain ⟨rfl, rfl⟩ := Prod.mk.inj same
    cases h
    exact ⟨_, spelled, .text, Nat.zero_le depth⟩
  · cases h

theorem readFlag_accepts : Accepts depth .flag readFlag := by
  refine accepts_head fun seen text v rest body h spelled => ?_
  split at h
  · next same =>
    obtain ⟨rfl, rfl⟩ := Prod.mk.inj same
    cases h
    exact ⟨_, spelled, .flag, Nat.zero_le depth⟩
  · cases h

theorem readLabel_accepts : Accepts depth .label readLabel := by
  refine accepts_head fun seen text v rest body h spelled => ?_
  split at h
  · next same =>
    obtain ⟨rfl, rfl⟩ := Prod.mk.inj same
    cases h
    exact ⟨.null, spelled, .noLabel, Nat.zero_le depth⟩
  · next same =>
    obtain ⟨rfl, rfl⟩ := Prod.mk.inj same
    cases h
    exact ⟨_, spelled, .label, Nat.zero_le depth⟩
  · cases h

theorem readUnit_accepts : Accepts depth .unit readUnit := by
  refine accepts_head fun seen text v rest body h spelled => ?_
  split at h
  · next same =>
    obtain ⟨rfl, rfl⟩ := Prod.mk.inj same
    cases h
    exact ⟨.null, spelled, .unit, Nat.zero_le depth⟩
  · cases h

theorem nextItem_ok (h : nextItem first text = .ok (true, rest)) :
    ∃ mark, Separator first mark ∧ text = mark ++ rest := by
  obtain ⟨before, blank, split⟩ := skipBlanks_split text
  unfold nextItem at h
  split at h
  · cases h
  · cases h
  · next c more notEnd start =>
    rw [start] at split
    cases first with
    | true =>
      rw [if_pos rfl] at h
      cases h
      exact ⟨before, blank, split⟩
    | false =>
      rw [if_neg (by simp)] at h
      split at h
      · next comma =>
        split at h
        · cases h
        · cases h
        · cases h
          obtain ⟨after, blank', split'⟩ := skipBlanks_split more
          refine ⟨before ++ ',' :: after, ⟨before, after, blank, blank', rfl⟩, ?_⟩
          rw [split, comma, List.append_assoc, List.cons_append, ← split']
      · cases h

theorem nextItem_ok_end (h : nextItem first text = .ok (false, rest)) :
    ∃ before after, Blank before ∧ rest = ']' :: after ∧ text = before ++ rest := by
  obtain ⟨before, blank, split⟩ := skipBlanks_split text
  unfold nextItem at h
  split at h
  · cases h
  · next more start =>
    cases h
    exact ⟨before, more, blank, rfl, start ▸ split⟩
  · split at h
    · cases h
    · split at h
      · split at h <;> cases h
      · cases h

theorem SpellsItems.endsNumber (items : SpellsItems false ds text rest) : EndsNumber text :=
  (SpellsItems.wellformed items).endsNumber

theorem SpellsMembers.endsNumber (members : SpellsMembers false ms text rest) : EndsNumber text :=
  (SpellsMembers.wellformed members).endsNumber

theorem items_ok {item : Shape} {read : Reader item.Content} {vs : List item.Content}
    (accepts : Accepts depth item read)
    (h : items read clock first text = .ok (vs, rest)) :
    ∃ ds after, rest = ']' :: after ∧ SpellsItems first ds text after ∧
      Denotes (.list item) (.array ds) vs ∧ Doc.itemsNesting ds ≤ depth := by
  induction clock generalizing first text vs with
  | nil => cases h
  | cons tick clock ih =>
    obtain ⟨⟨more, text₁⟩, next, h⟩ := of_bind_ok h
    cases more with
    | false =>
      cases h
      obtain ⟨before, after, blank, rfl, rfl⟩ := nextItem_ok_end next
      exact ⟨[], after, rfl, .nil blank, .list rfl (by simp), Nat.zero_le depth⟩
    | true =>
      obtain ⟨⟨v, text₂⟩, value, h⟩ := of_bind_ok h
      obtain ⟨⟨vs, text₃⟩, tail, h⟩ := of_bind_ok h
      cases h
      obtain ⟨mark, sep, rfl⟩ := nextItem_ok next
      obtain ⟨ds, after, rfl, spells, means, shallow⟩ := ih tail
      obtain ⟨d, before, body, blank, rfl, spelled, meant, deep⟩ :=
        accepts _ _ _ value (SpellsItems.endsNumber spells)
      refine ⟨d :: ds, after, rfl, ?_, ?_, Nat.max_le.mpr ⟨deep, shallow⟩⟩
      · rw [← List.append_assoc]
        exact .cons (sep.append blank) spelled spells
      · cases means with
        | list same each =>
          refine .list (by simp [same]) fun i e w left right => ?_
          cases i with
          | zero =>
            cases left
            cases right
            exact meant
          | succ i => exact each i e w left right

theorem listEnd_ok (h : listEnd text = (none, rest)) :
    ∃ before, Blank before ∧ text = before ++ ']' :: rest := by
  obtain ⟨before, blank, split⟩ := skipBlanks_split text
  unfold listEnd at h
  split at h
  · cases h
  · next more start =>
    cases h
    exact ⟨before, blank, start ▸ split⟩
  · split at h <;> cases h
  · cases h

variable {read : (s : Shape) → Reader s.Content}

theorem elements_ok (accepts : ∀ s, Accepts depth s (read s)) (fields : Fields) {row : Row fields}
    (h : elements read expected fields count text = .ok (row, left))
    (closed : listEnd left = (none, rest)) :
    ∃ ds, SpellsItems (count == 0) ds text rest ∧ ds.length = fields.length ∧
      (∀ (i : Nat) d e, ds[i]? = some d → (Row.entries fields row)[i]? = some e →
        Denotes e.shape d e.value) ∧
      Doc.itemsNesting ds ≤ depth := by
  induction fields generalizing count text with
  | nil =>
    cases h
    obtain ⟨before, blank, rfl⟩ := listEnd_ok closed
    exact ⟨[], .nil blank, rfl, by simp, Nat.zero_le depth⟩
  | cons field fields ih =>
    obtain ⟨⟨more, text₁⟩, next, h⟩ := of_bind_ok h
    cases more with
    | false => cases h
    | true =>
      obtain ⟨⟨v, text₂⟩, value, h⟩ := of_bind_ok h
      obtain ⟨⟨row, text₃⟩, tail, h⟩ := of_bind_ok h
      cases h
      obtain ⟨mark, sep, rfl⟩ := nextItem_ok next
      obtain ⟨ds, spells, same, each, shallow⟩ := ih tail
      obtain ⟨d, before, body, blank, rfl, spelled, means, deep⟩ :=
        accepts _ _ _ _ value (SpellsItems.endsNumber spells)
      refine ⟨d :: ds, ?_, congrArg (· + 1) same, fun i e entry left right => ?_,
        Nat.max_le.mpr ⟨deep, shallow⟩⟩
      · rw [← List.append_assoc]
        exact .cons (sep.append blank) spelled spells
      · cases i with
        | zero =>
          cases left
          cases right
          exact means
        | succ i => exact each i e entry left right

/-- How members of a document fill a slot that may have been filled before: at most once. -/
def Gain (name : String) (s : Shape) (ms : List (String × Doc)) (old new : Option s.Content) : Prop :=
  (name ∉ ms.map Prod.fst ∧ new = old) ∨
  (old = none ∧ name ∈ ms.map Prod.fst ∧ ∃ v, new = some v ∧ ∀ d, (name, d) ∈ ms → Denotes s d v)

def Slots.Gains : (fields : Fields) → (old new : Slots fields) → List (String × Doc) → Prop
  | [], _, _, _ => True
  | (name, s) :: fields, (slot, slots), (slot', slots'), ms =>
    Gain name s ms slot slot' ∧ Gains fields slots slots' ms

theorem Gain.cons {old new : Option s.Content} (gain : Gain name s ms old new) (other : name ≠ key)
    (d : Doc) : Gain name s ((key, d) :: ms) old new := by
  rcases gain with ⟨absent, same⟩ | ⟨empty, present, v, filled, means⟩
  · exact .inl ⟨by simp [other, absent], same⟩
  · refine .inr ⟨empty, List.mem_cons_of_mem key present, v, filled, fun e member => ?_⟩
    rcases List.mem_cons.mp member with same | member
    · exact absurd (Prod.mk.inj same).1 other
    · exact means e member

theorem Slots.gains_refl (fields : Fields) (slots : Slots fields) : Gains fields slots slots [] := by
  induction fields with
  | nil => trivial
  | cons field fields ih => exact ⟨.inl ⟨by simp, rfl⟩, ih slots.2⟩

/-- A member that is no field fills nothing. -/
theorem Slots.Gains.cons {fields : Fields} {old new : Slots fields} (gains : Gains fields old new ms)
    (other : key ∉ fields.map Prod.fst) (d : Doc) : Gains fields old new ((key, d) :: ms) := by
  induction fields with
  | nil => trivial
  | cons field fields ih =>
    simp only [List.map_cons, List.mem_cons, not_or] at other
    exact ⟨gains.1.cons (Ne.symm other.1) d, ih gains.2 other.2⟩

/-- A key that is the name of a field is followed by its value, which later members leave alone. -/
theorem Slots.fill?_ok (fields : Fields) (distinct : (fields.map Prod.fst).Nodup)
    {slots filled : Slots fields}
    (h : slots.fill? read key fields text = some (.ok (filled, rest))) :
    ∃ s text' v, (key, s) ∈ fields ∧ colon text = .ok text' ∧ read s text' = .ok (v, rest) ∧
      ∀ new ms d, Gains fields filled new ms → Denotes s d v →
        key ∉ ms.map Prod.fst ∧ Gains fields slots new ((key, d) :: ms) := by
  induction fields with
  | nil => cases h
  | cons field fields ih =>
    obtain ⟨name, s⟩ := field
    obtain ⟨slot, slots⟩ := slots
    simp only [List.map_cons, List.nodup_cons] at distinct
    unfold fill? at h
    split at h
    · next same =>
      subst same
      cases slot with
      | some v => cases h
      | none =>
        obtain ⟨text', sign, h⟩ := of_bind_ok (Option.some.inj h)
        obtain ⟨⟨v, text''⟩, value, h⟩ := of_bind_ok h
        cases h
        refine ⟨s, text', v, List.mem_cons_self, sign, value, fun new ms d gains means => ?_⟩
        obtain ⟨⟨absent, here⟩ | ⟨empty, _⟩, others⟩ := gains
        · refine ⟨absent, .inr ⟨rfl, List.mem_cons_self, v, here, fun e member => ?_⟩,
            others.cons distinct.1 d⟩
          rcases List.mem_cons.mp member with same | member
          · exact (Prod.mk.inj same).2 ▸ means
          · exact absurd (List.mem_map_of_mem member) absent
        · cases empty
    · next other =>
      obtain ⟨outcome, found, h⟩ := Option.map_eq_some_iff.mp h
      obtain ⟨⟨slots', text'⟩, rfl, h⟩ := of_bind_ok h
      cases h
      obtain ⟨s', text', v, field, sign, value, later⟩ := ih distinct.2 found
      refine ⟨s', text', v, List.mem_cons_of_mem _ field, sign, value, fun new ms d gains means => ?_⟩
      obtain ⟨once, others⟩ := later new.2 ms d gains.2 means
      exact ⟨once, gains.1.cons other d, others⟩

theorem Slots.fill?_none (fields : Fields) {slots : Slots fields}
    (h : slots.fill? read key fields text = none) : key ∉ fields.map Prod.fst := by
  induction fields with
  | nil => simp
  | cons field fields ih =>
    unfold fill? at h
    split at h
    · cases h
    · next other =>
      simp only [List.map_cons, List.mem_cons, not_or]
      exact ⟨Ne.symm other, ih (Option.map_eq_none_iff.mp h)⟩

theorem nextKey_ok (h : nextKey first text = .ok (true, rest)) :
    ∃ mark, Separator first mark ∧ text = mark ++ '"' :: rest := by
  obtain ⟨before, blank, split⟩ := skipBlanks_split text
  unfold nextKey at h
  split at h
  · cases h
  · cases h
  · next c more notEnd start =>
    rw [start] at split
    cases first with
    | true =>
      rw [if_pos rfl] at h
      split at h
      · next quote =>
        cases h
        exact ⟨before, blank, quote ▸ split⟩
      · cases h
    | false =>
      rw [if_neg (by simp)] at h
      split at h
      · next comma =>
        obtain ⟨after, blank', split'⟩ := skipBlanks_split more
        split at h
        · cases h
        · next start' =>
          cases h
          refine ⟨before ++ ',' :: after, ⟨before, after, blank, blank', rfl⟩, ?_⟩
          rw [split, comma, List.append_assoc, List.cons_append, ← start', ← split']
        · cases h
        · cases h
      · cases h

theorem nextKey_ok_end (h : nextKey first text = .ok (false, rest)) :
    ∃ before after, Blank before ∧ rest = '\x7d' :: after ∧ text = before ++ rest := by
  obtain ⟨before, blank, split⟩ := skipBlanks_split text
  unfold nextKey at h
  split at h
  · cases h
  · next more start =>
    cases h
    exact ⟨before, more, blank, rfl, start ▸ split⟩
  · split at h
    · split at h <;> cases h
    · split at h
      · split at h <;> cases h
      · cases h

/-- Members whose reading fills slots: every one of them is a field, each field once, or not read. -/
structure Slots.Filled (depth : Nat) (fields : Fields) (old new : Slots fields)
    (ms : List (String × Doc)) : Prop where
  gains : Slots.Gains fields old new ms
  once : (ms.map Prod.fst).Pairwise fun k l => k = l → k ∉ fields.map Prod.fst
  others : ∀ m ∈ ms, m.1 ∉ fields.map Prod.fst → m.2 = .unread
  shallow : Doc.membersNesting ms ≤ depth

theorem Slots.filled_refl (depth : Nat) (fields : Fields) (slots : Slots fields) :
    Filled depth fields slots slots [] :=
  ⟨gains_refl fields slots, .nil, nofun, Nat.zero_le depth⟩

theorem Slots.Filled.field {slots : Slots fields} (filled : Filled depth fields old new ms)
    (known : key ∈ fields.map Prod.fst) (absent : key ∉ ms.map Prod.fst)
    (gains : Gains fields slots new ((key, d) :: ms)) (deep : d.nesting ≤ depth) :
    Filled depth fields slots new ((key, d) :: ms) where
  gains := gains
  once := by
    refine List.pairwise_cons.mpr ⟨?_, filled.once⟩
    rintro l member rfl
    exact absurd member absent
  others := List.forall_mem_cons.mpr ⟨fun unknown => absurd known unknown, filled.others⟩
  shallow := Nat.max_le.mpr ⟨deep, filled.shallow⟩

theorem Slots.Filled.unread (filled : Filled depth fields old new ms)
    (unknown : key ∉ fields.map Prod.fst) : Filled depth fields old new ((key, .unread) :: ms) where
  gains := filled.gains.cons unknown .unread
  once := List.pairwise_cons.mpr ⟨fun _ _ _ => unknown, filled.once⟩
  others := List.forall_mem_cons.mpr ⟨fun _ => rfl, filled.others⟩
  shallow := Nat.max_le.mpr ⟨Nat.zero_le depth, filled.shallow⟩

theorem members_ok (accepts : ∀ s, Accepts depth s (read s)) (fields : Fields)
    (distinct : (fields.map Prod.fst).Nodup) {slots filled : Slots fields}
    (h : members read fields clock first slots text = .ok (filled, rest)) :
    ∃ ms after, rest = '\x7d' :: after ∧ SpellsMembers first ms text after ∧
      Slots.Filled depth fields slots filled ms := by
  induction clock generalizing first slots text with
  | nil => cases h
  | cons tick clock ih =>
    obtain ⟨⟨more, text₁⟩, next, h⟩ := of_bind_ok h
    cases more with
    | false =>
      cases h
      obtain ⟨before, after, blank, rfl, rfl⟩ := nextKey_ok_end next
      exact ⟨[], after, rfl, .nil blank, Slots.filled_refl depth fields _⟩
    | true =>
      obtain ⟨⟨chars, text₂⟩, key, h⟩ := of_bind_ok h
      have spelledKey := readString_ok key
      rw [← String.toList_ofList (l := chars)] at spelledKey
      obtain ⟨mark, sep, start⟩ := nextKey_ok next
      rw [start]
      dsimp only at h
      split at h
      · next outcome found =>
        obtain ⟨⟨slots', text₃⟩, rfl, h⟩ := of_bind_ok h
        obtain ⟨ms, after, rfl, spells, fills⟩ := ih h
        obtain ⟨s, text', v, field, sign, value, later⟩ := Slots.fill?_ok fields distinct found
        obtain ⟨d, before, body, blank, rfl, spelled, means, deep⟩ :=
          accepts _ _ _ _ value (SpellsMembers.endsNumber spells)
        obtain ⟨colon, marked, rfl⟩ := colon_ok sign
        obtain ⟨absent, gains⟩ := later _ ms d fills.gains means
        rw [← List.append_assoc] at spelledKey
        exact ⟨(String.ofList chars, d) :: ms, after, rfl,
          .cons sep spelledKey (marked.append blank) spelled spells,
          fills.field (List.mem_map_of_mem field) absent gains deep⟩
      · next found =>
        obtain ⟨text₃, sign, h⟩ := of_bind_ok h
        obtain ⟨text₄, skipped, h⟩ := of_bind_ok h
        obtain ⟨ms, after, rfl, spells, fills⟩ := ih h
        obtain ⟨before, body, blank, rfl, wellformed⟩ :=
          skipValue_ok skipped (SpellsMembers.endsNumber spells)
        obtain ⟨colon, marked, rfl⟩ := colon_ok sign
        rw [← List.append_assoc] at spelledKey
        exact ⟨(String.ofList chars, .unread) :: ms, after, rfl,
          .cons sep spelledKey (marked.append blank) (.unread wellformed) spells,
          fills.unread (Slots.fill?_none fields found)⟩

/-- Every field of a complete row has been filled or may be absent. -/
theorem Slots.Gains.complete {fields : Fields} {slots : Slots fields} {row : Row fields}
    (gains : Gains fields (empty fields) slots ms) (h : Slots.complete fields slots = .ok row) :
    ∀ e ∈ Row.entries fields row,
      (e.name ∈ ms.map Prod.fst ∨ e.shape.absent? = some e.value) ∧
        ∀ d, (e.name, d) ∈ ms → Denotes e.shape d e.value := by
  induction fields with
  | nil => simp [Row.entries]
  | cons field fields ih =>
    obtain ⟨name, s⟩ := field
    obtain ⟨slot, slots⟩ := slots
    unfold Slots.complete at h
    split at h
    · next v filled =>
      obtain ⟨row, tail, h⟩ := of_bind_ok h
      cases h
      refine List.forall_mem_cons.mpr ⟨?_, ih gains.2 tail⟩
      obtain ⟨⟨absent, rfl⟩ | ⟨_, present, w, rfl, means⟩, _⟩ := gains
      · exact ⟨.inr filled, fun d member => absurd (List.mem_map_of_mem member) absent⟩
      · cases filled
        exact ⟨.inl present, means⟩
    · cases h

theorem objectRow_ok (accepts : ∀ s, Accepts depth s (read s)) (r : Record) {row : Row r.fields}
    (h : objectRow read r.fields text = .ok (row, left)) :
    ∃ ms after, left = '\x7d' :: after ∧ SpellsMembers true ms text after ∧
      Denotes (.record r) (.object ms) (r.build row) ∧ Doc.membersNesting ms ≤ depth := by
  obtain ⟨⟨slots, text'⟩, filled, h⟩ := of_bind_ok h
  obtain ⟨ms, after, rfl, spells, fills⟩ := members_ok accepts r.fields r.names_distinct filled
  dsimp only at h
  split at h
  · next row' complete =>
    cases h
    have entries := fills.gains.complete complete
    exact ⟨ms, after, rfl, spells, .members fills.once fills.others
      (fun e member => (entries e member).1) (fun e member => (entries e member).2), fills.shallow⟩
  · cases h

theorem taggedVariant_accepts (accepts : ∀ s, Accepts depth s (read s)) {c : Choice}
    {v : c.Content} (h : taggedVariant read c.variants text = .ok (v, rest)) :
    ∃ name d, SpellsMembers true [(name, d)] text rest ∧
      Denotes (.choice c) (.object [(name, d)]) v ∧ d.nesting ≤ depth := by
  obtain ⟨before, blank, split⟩ := skipBlanks_split text
  unfold taggedVariant at h
  split at h
  · cases h
  · cases h
  · next start =>
    obtain ⟨⟨chars, text₁⟩, key, h⟩ := of_bind_ok h
    obtain ⟨variant, found, h⟩ := of_bind_ok h
    obtain ⟨text₂, sign, h⟩ := of_bind_ok h
    obtain ⟨⟨w, text₃⟩, value, h⟩ := of_bind_ok h
    obtain ⟨after, blank₃, split₃⟩ := skipBlanks_split text₃
    dsimp only at h
    split at h
    · cases h
    · next close =>
      cases h
      rw [close] at split₃
      have ends : EndsNumber text₃ := split₃ ▸ endsNumber_append blank₃ (by simp [EndsNumber])
      obtain ⟨d, between, body, blank', rfl, spelled, means, deep⟩ := accepts _ _ _ _ value ends
      obtain ⟨colon, marked, rfl⟩ := colon_ok sign
      have spelledKey := readString_ok key
      rw [← String.toList_ofList (l := chars), ← List.append_assoc] at spelledKey
      refine ⟨String.ofList chars, d, ?_, .tagged (findVariant_found found) means, deep⟩
      rw [split, start]
      have opens : Separator true before := blank
      exact .cons opens spelledKey (marked.append blank') spelled (split₃ ▸ .nil blank₃)
    · cases h
  · cases h

theorem bareVariant_denotes {c : Choice} {variant : Variant c.Content} {v : c.Content}
    (found : c.variants.find? (·.name == name) = some variant)
    (h : bareVariant text variant = .ok (v, rest)) :
    text = rest ∧ Denotes (.choice c) (.string name) v := by
  have named : variant.name = name := by simpa using List.find?_some found
  unfold bareVariant at h
  split at h
  · cases h
    subst named
    exact ⟨rfl, .bare found⟩
  · cases h

/-- What stands inside of brackets that may be nested `depth` deep is accepted by `inner`. -/
def AcceptsInside (depth : Nat) (inner : Option ((s : Shape) → Reader s.Content)) : Prop :=
  ∀ read, inner = some read → ∃ below, depth = below + 1 ∧ ∀ s, Accepts below s (read s)

variable {inner : Option ((s : Shape) → Reader s.Content)}

theorem list_accepts (inside : AcceptsInside depth inner) (item : Shape) :
    Accepts depth (.list item) (readWith.list inner item) := by
  intro text vs rest h _
  obtain ⟨⟨seen, text'⟩, first, h⟩ := of_bind_ok h
  obtain ⟨before, body, blank, same, spelled⟩ := head_ok first
  dsimp only at h
  split at h
  · obtain ⟨below, rfl, accepts⟩ := inside _ rfl
    obtain ⟨more, rfl, rfl⟩ := spelled
    obtain ⟨left, read, closed⟩ := closing_ok h
    obtain ⟨ds, after, rfl, spells, means, shallow⟩ := items_ok (accepts item) read
    cases closed
    exact ⟨.array ds, before, _, blank, same, .array spells, means, Nat.succ_le_succ shallow⟩
  · cases h
  · cases h

theorem record_accepts (inside : AcceptsInside depth inner) (r : Record) :
    Accepts depth (.record r) (readWith inner (.record r)) := by
  intro text v rest h _
  obtain ⟨⟨seen, text'⟩, first, h⟩ := of_bind_ok h
  obtain ⟨before, body, blank, same, spelled⟩ := head_ok first
  dsimp only at h
  split at h
  · obtain ⟨below, rfl, accepts⟩ := inside _ rfl
    obtain ⟨more, rfl, rfl⟩ := spelled
    obtain ⟨⟨row, text''⟩, closed, h⟩ := of_bind_ok h
    cases h
    obtain ⟨left, read, closed⟩ := closing_ok closed
    obtain ⟨ds, spells, length, each, shallow⟩ := elements_ok accepts r.fields read closed
    exact ⟨.array ds, before, _, blank, same, .array spells, .elements length each,
      Nat.succ_le_succ shallow⟩
  · obtain ⟨below, rfl, accepts⟩ := inside _ rfl
    obtain ⟨more, rfl, rfl⟩ := spelled
    obtain ⟨⟨row, text''⟩, closed, h⟩ := of_bind_ok h
    cases h
    obtain ⟨left, read, closed⟩ := closing_ok closed
    obtain ⟨ms, after, rfl, spells, means, shallow⟩ := objectRow_ok accepts r read
    cases closed
    exact ⟨.object ms, before, _, blank, same, .object spells, means, Nat.succ_le_succ shallow⟩
  · cases h
  · cases h
  · cases h

theorem choice_accepts (inside : AcceptsInside depth inner) (c : Choice) :
    Accepts depth (.choice c) (readWith inner (.choice c)) := by
  intro text v rest h _
  obtain ⟨before, blank, split⟩ := skipBlanks_split text
  simp only [readWith] at h
  split at h
  · cases h
  · next start =>
    obtain ⟨⟨chars, text'⟩, key, h⟩ := of_bind_ok h
    obtain ⟨variant, found, h⟩ := of_bind_ok h
    obtain ⟨rfl, means⟩ := bareVariant_denotes (findVariant_found found) h
    have spelled := readString_ok key
    rw [← String.toList_ofList (l := chars)] at spelled
    exact ⟨_, before, _, blank, start ▸ split, .string spelled, means, Nat.zero_le depth⟩
  · next start =>
    split at h
    · obtain ⟨below, rfl, accepts⟩ := inside _ rfl
      obtain ⟨name, d, spells, means, deep⟩ := taggedVariant_accepts accepts h
      refine ⟨_, before, _, blank, start ▸ split, .object spells, means, Nat.succ_le_succ ?_⟩
      exact Nat.max_le.mpr ⟨deep, Nat.zero_le below⟩
    · cases h
  · cases h

theorem readWith_accepts (inside : AcceptsInside depth inner) (s : Shape) :
    Accepts depth s (readWith inner s) := by
  cases s with
  | pos => exact readPos_accepts
  | text => exact readText_accepts
  | flag => exact readFlag_accepts
  | label => exact readLabel_accepts
  | unit => exact readUnit_accepts
  | blockName =>
    intro text v rest h ends
    obtain ⟨⟨parts, text'⟩, read, h⟩ := of_bind_ok h
    cases parts with
    | nil => cases h
    | cons part parts =>
      cases h
      obtain ⟨d, before, body, blank, same, spells, means, shallow⟩ :=
        list_accepts inside .text _ _ _ read ends
      exact ⟨d, before, body, blank, same, spells, .blockName means, shallow⟩
  | list item => exact list_accepts inside item
  | record r => exact record_accepts inside r
  | choice c => exact choice_accepts inside c

theorem read_accepts (depth : Nat) (s : Shape) : Accepts depth s (Exchange.read depth s) := by
  induction depth generalizing s with
  | zero => exact readWith_accepts (fun read h => by cases h) s
  | succ depth ih =>
    refine readWith_accepts (fun read h => ?_) s
    cases h
    exact ⟨depth, rfl, ih⟩

theorem Blank.of_skipBlanks (h : skipBlanks text = []) : Blank text := by
  obtain ⟨before, blank, split⟩ := skipBlanks_split text
  rwa [split, h, List.append_nil]

theorem readAll_ok_iff {s : Shape} {v : s.Content} :
    readAll s text = .ok v ↔ ∃ d, SpellsText d text ∧ Denotes s d v ∧ d.nesting ≤ depthLimit := by
  constructor
  · intro h
    obtain ⟨⟨w, rest⟩, read, h⟩ := of_bind_ok h
    dsimp only at h
    split at h
    · next ended =>
      cases h
      have blank := Blank.of_skipBlanks ended
      have ends : EndsNumber (rest ++ []) := endsNumber_append blank (by simp [EndsNumber])
      rw [List.append_nil] at ends
      obtain ⟨d, before, body, blank', same, spells, means, shallow⟩ :=
        read_accepts depthLimit s _ _ _ read ends
      exact ⟨d, ⟨before, body, rest, blank', blank, same, spells⟩, means, shallow⟩
    · cases h
  · rintro ⟨d, ⟨before, body, after, blank, blank', rfl, spells⟩, means, shallow⟩
    exact (readAll_spelled means blank spells blank').1 shallow

end River.Exchange
