import River.Proofs.Exchange.Encoding

/-! What reading can yield. Whatever holds of all that is read inside of brackets holds of the parts
of what the brackets hold, however these were spelled; so a value is never nested deeper than its
text. -/
namespace River.Exchange

open River.Json

/-- Everything that is read satisfies `Q`. -/
def Yields (Q : α → Prop) (read : Reader α) : Prop :=
  ∀ text v rest, read text = .ok (v, rest) → Q v

theorem closing_ok {close : List Char → Option Cause × List Char}
    {outcome : Except Failure (α × List Char)} (h : closing close outcome = .ok (v, rest)) :
    ∃ inside, outcome = .ok (v, inside) ∧ close inside = (none, rest) := by
  unfold closing at h
  split at h
  · split at h
    · next found =>
      cases h
      exact ⟨_, rfl, found⟩
    · cases h
  · cases h
  · cases h

theorem items_yields {item : Reader α} (each : Yields Q item) (clock : List Char) (first : Bool) :
    Yields (fun vs => ∀ v ∈ vs, Q v) (items item clock first) := by
  induction clock generalizing first with
  | nil => intro text vs rest h; cases h
  | cons tick clock ih =>
    intro text vs rest h
    obtain ⟨⟨more, text⟩, _, h⟩ := of_bind_ok h
    cases more with
    | false => cases h; simp
    | true =>
      obtain ⟨⟨v, text⟩, read, h⟩ := of_bind_ok h
      obtain ⟨⟨vs, text⟩, tail, h⟩ := of_bind_ok h
      cases h
      exact List.forall_mem_cons.mpr ⟨each _ _ _ read, ih false _ _ _ tail⟩

section Records

variable {Q : (s : Shape) → s.Content → Prop} {read : (s : Shape) → Reader s.Content}

theorem elements_yields (each : ∀ s, Yields (Q s) (read s)) (expected : String) (fields : Fields)
    (count : Nat) : Yields (fun row => ∀ e ∈ Row.entries fields row, Q e.shape e.value)
      (elements read expected fields count) := by
  induction fields generalizing count with
  | nil => intro text row rest _; simp [Row.entries]
  | cons field fields ih =>
    intro text row rest h
    obtain ⟨⟨more, text⟩, _, h⟩ := of_bind_ok h
    cases more with
    | false => cases h
    | true =>
      obtain ⟨⟨v, text⟩, value, h⟩ := of_bind_ok h
      obtain ⟨⟨row, text⟩, tail, h⟩ := of_bind_ok h
      cases h
      exact List.forall_mem_cons.mpr ⟨each _ _ _ _ value, ih _ _ _ _ tail⟩

def Slots.Hold (Q : (s : Shape) → s.Content → Prop) : (fields : Fields) → Slots fields → Prop
  | [], () => True
  | (_, s) :: fields, (slot, slots) => (∀ v ∈ slot, Q s v) ∧ Hold Q fields slots

theorem Slots.hold_empty (fields : Fields) : Hold Q fields (empty fields) := by
  induction fields with
  | nil => trivial
  | cons field fields ih => exact ⟨by simp, ih⟩

theorem Slots.hold_fill? (each : ∀ s, Yields (Q s) (read s)) (fields : Fields)
    {slots filled : Slots fields} (hold : Hold Q fields slots)
    (h : slots.fill? read key fields text = some (.ok (filled, rest))) : Hold Q fields filled := by
  induction fields with
  | nil => cases h
  | cons field fields ih =>
    obtain ⟨name, s⟩ := field
    obtain ⟨slot, slots⟩ := slots
    unfold fill? at h
    split at h
    · cases slot with
      | some v => cases h
      | none =>
        obtain ⟨text, _, h⟩ := of_bind_ok (Option.some.inj h)
        obtain ⟨⟨v, text⟩, value, h⟩ := of_bind_ok h
        cases h
        refine ⟨?_, hold.2⟩
        rintro w ⟨⟩
        exact each _ _ _ _ value
    · obtain ⟨outcome, found, h⟩ := Option.map_eq_some_iff.mp h
      obtain ⟨⟨slots, text⟩, rfl, h⟩ := of_bind_ok h
      cases h
      exact ⟨hold.1, ih hold.2 found⟩

theorem members_yields (each : ∀ s, Yields (Q s) (read s)) (fields : Fields) (clock : List Char)
    (first : Bool) (slots : Slots fields) (hold : slots.Hold Q fields) :
    Yields (Slots.Hold Q fields) (members read fields clock first slots) := by
  induction clock generalizing first slots with
  | nil => intro text filled rest h; cases h
  | cons tick clock ih =>
    intro text filled rest h
    obtain ⟨⟨more, text⟩, _, h⟩ := of_bind_ok h
    cases more with
    | false => cases h; exact hold
    | true =>
      obtain ⟨⟨key, text⟩, _, h⟩ := of_bind_ok h
      dsimp only at h
      split at h
      · next outcome found =>
        obtain ⟨⟨slots, text⟩, rfl, h⟩ := of_bind_ok h
        exact ih false slots (Slots.hold_fill? each fields hold found) _ _ _ h
      · obtain ⟨text, _, h⟩ := of_bind_ok h
        obtain ⟨text, _, h⟩ := of_bind_ok h
        exact ih false slots hold _ _ _ h

theorem Slots.hold_complete (absent : ∀ s v, s.absent? = some v → Q s v) (fields : Fields)
    {slots : Slots fields} {row : Row fields} (hold : Hold Q fields slots)
    (h : complete fields slots = .ok row) : ∀ e ∈ Row.entries fields row, Q e.shape e.value := by
  induction fields with
  | nil => simp [Row.entries]
  | cons field fields ih =>
    obtain ⟨name, s⟩ := field
    obtain ⟨slot, slots⟩ := slots
    unfold complete at h
    split at h
    · next v filled =>
      obtain ⟨row, tail, h⟩ := of_bind_ok h
      cases h
      refine List.forall_mem_cons.mpr ⟨?_, ih hold.2 tail⟩
      cases slot with
      | some w => cases filled; exact hold.1 v rfl
      | none => exact absent s v filled
    · cases h

theorem objectRow_yields (each : ∀ s, Yields (Q s) (read s))
    (absent : ∀ s v, s.absent? = some v → Q s v) (fields : Fields) :
    Yields (fun row => ∀ e ∈ Row.entries fields row, Q e.shape e.value) (objectRow read fields) := by
  intro text row rest h
  obtain ⟨⟨slots, text⟩, filled, h⟩ := of_bind_ok h
  have hold := members_yields each fields _ _ _ (Slots.hold_empty fields) _ _ _ filled
  dsimp only at h
  split at h
  · next complete =>
    cases h
    exact Slots.hold_complete absent fields hold complete
  · cases h

end Records

theorem findVariant_found {variants : List (Variant α)}
    (h : findVariant variants name rest = .ok variant) :
    variants.find? (·.name == name) = some variant := by
  unfold findVariant at h
  split at h
  · next found =>
    cases h
    exact found
  · cases h

theorem findVariant_ok {variants : List (Variant α)}
    (h : findVariant variants name rest = .ok variant) : variant ∈ variants :=
  List.mem_of_find?_eq_some (findVariant_found h)

theorem bareVariant_ok {variant : Variant α} (h : bareVariant text variant = .ok (v, rest)) :
    ∃ name make, variant = ⟨name, .unit, make⟩ ∧ v = make () := by
  unfold bareVariant at h
  split at h
  · cases h
    exact ⟨_, _, rfl, rfl⟩
  · cases h

theorem taggedVariant_yields {Q : (s : Shape) → s.Content → Prop}
    {read : (s : Shape) → Reader s.Content} (each : ∀ s, Yields (Q s) (read s))
    (variants : List (Variant α)) :
    Yields (fun v => ∃ variant ∈ variants, ∃ w, Q variant.payload w ∧ v = variant.make w)
      (taggedVariant read variants) := by
  intro text v rest h
  unfold taggedVariant at h
  split at h
  · cases h
  · cases h
  · obtain ⟨⟨key, text⟩, _, h⟩ := of_bind_ok h
    obtain ⟨variant, found, h⟩ := of_bind_ok h
    obtain ⟨text, _, h⟩ := of_bind_ok h
    obtain ⟨⟨w, text⟩, payload, h⟩ := of_bind_ok h
    refine ⟨variant, findVariant_ok found, w, each _ _ _ _ payload, ?_⟩
    dsimp only at h
    split at h
    · cases h
    · cases h; rfl
    · cases h
  · cases h

theorem Choice.nesting_make (c : Choice) : ∀ variant ∈ c.variants, ∀ w,
    (c.json (variant.make w)).nesting ≤ (variant.payload.json w).nesting + 1 := by
  have stmt (s : Stmt) : s.json.nesting ≤ s.bareJson.nesting + 1 := by
    simp [Stmt.json, Json.nesting, Json.membersNesting, Json.memberNesting]
  have expr (e : Expr) : e.json.nesting ≤ e.bareJson.nesting + 1 := by
    simp [Expr.json, Json.nesting, Json.membersNesting, Json.memberNesting]
  cases c with
  | stmt =>
    simp only [variants, stmtVariants, List.forall_mem_cons, Choice.json]
    exact ⟨stmt, stmt, by simp⟩
  | expr =>
    simp only [variants, exprVariants, List.forall_mem_cons, Choice.json]
    exact ⟨fun id => expr (.ident id), expr, expr, expr, expr, expr, expr, expr, expr, expr, by simp⟩
  | token =>
    intro variant member w
    exact Nat.zero_le _

theorem Choice.nesting_bare (c : Choice) {make : Unit → c.Content}
    (member : ⟨name, .unit, make⟩ ∈ c.variants) : (c.json (make ())).nesting = 0 := by
  cases c with
  | stmt => simp [variants, stmtVariants] at member
  | expr => simp [variants, exprVariants] at member
  | token => rfl

/-- What stands inside of brackets is nested less deep than `depth`. -/
def YieldsInside (depth : Nat) (inner : Option ((s : Shape) → Reader s.Content)) : Prop :=
  ∀ read, inner = some read →
    ∃ below, depth = below + 1 ∧ ∀ s, Yields (fun v => (s.json v).nesting ≤ below) (read s)

theorem list_yields {inner : Option ((s : Shape) → Reader s.Content)}
    (inside : YieldsInside depth inner) (item : Shape) :
    Yields (fun vs => (Json.array (vs.map item.json)).nesting ≤ depth) (readWith.list inner item) := by
  intro text vs rest h
  obtain ⟨⟨seen, text⟩, _, h⟩ := of_bind_ok h
  dsimp only at h
  split at h
  · obtain ⟨below, rfl, each⟩ := inside _ rfl
    obtain ⟨text, h, _⟩ := closing_ok h
    exact Nat.succ_le_succ (itemsNesting_le.mpr (items_yields (each item) _ _ _ _ _ h))
  · cases h
  · cases h

theorem record_yields {inner : Option ((s : Shape) → Reader s.Content)}
    (inside : YieldsInside depth inner) (r : Record) :
    Yields (fun v => (r.json v).nesting ≤ depth) (readWith inner (.record r)) := by
  intro text v rest h
  obtain ⟨⟨seen, text⟩, _, h⟩ := of_bind_ok h
  have absent (s : Shape) (w : s.Content) (filled : s.absent? = some w) (below : Nat) :
      (s.json w).nesting ≤ below := by
    cases s <;> cases filled <;> exact Nat.zero_le below
  dsimp only at h
  split at h
  · obtain ⟨below, rfl, each⟩ := inside _ rfl
    obtain ⟨⟨row, text⟩, closed, h⟩ := of_bind_ok h
    obtain ⟨text, h', _⟩ := closing_ok closed
    cases h
    rw [r.json_build row]
    exact Nat.succ_le_succ (membersNesting_le.mpr (elements_yields each _ _ _ _ _ _ h'))
  · obtain ⟨below, rfl, each⟩ := inside _ rfl
    obtain ⟨⟨row, text⟩, closed, h⟩ := of_bind_ok h
    obtain ⟨text, h', _⟩ := closing_ok closed
    cases h
    rw [r.json_build row]
    exact Nat.succ_le_succ (membersNesting_le.mpr
      (objectRow_yields each (fun s w filled => absent s w filled below) _ _ _ _ h'))
  · cases h
  · cases h
  · cases h

theorem choice_yields {inner : Option ((s : Shape) → Reader s.Content)}
    (inside : YieldsInside depth inner) (c : Choice) :
    Yields (fun v => (c.json v).nesting ≤ depth) (readWith inner (.choice c)) := by
  intro text v rest h
  simp only [readWith] at h
  split at h
  · cases h
  · obtain ⟨⟨name, text⟩, _, h⟩ := of_bind_ok h
    obtain ⟨variant, found, h⟩ := of_bind_ok h
    obtain ⟨name, make, rfl, rfl⟩ := bareVariant_ok h
    rw [c.nesting_bare (findVariant_ok found)]
    exact Nat.zero_le depth
  · split at h
    · obtain ⟨below, rfl, each⟩ := inside _ rfl
      obtain ⟨variant, member, w, bound, rfl⟩ := taggedVariant_yields each c.variants _ _ _ h
      exact Nat.le_trans (c.nesting_make variant member w) (Nat.succ_le_succ bound)
    · cases h
  · cases h

theorem readWith_yields {inner : Option ((s : Shape) → Reader s.Content)}
    (inside : YieldsInside depth inner) (s : Shape) :
    Yields (fun v => (s.json v).nesting ≤ depth) (readWith inner s) := by
  cases s with
  | pos =>
    intro text v rest _
    cases v <;> exact Nat.zero_le depth
  | label =>
    intro text v rest _
    cases v <;> exact Nat.zero_le depth
  | text | flag | unit => exact fun _ _ _ _ => Nat.zero_le depth
  | blockName =>
    intro text v rest h
    obtain ⟨⟨parts, text⟩, read, h⟩ := of_bind_ok h
    cases parts with
    | nil => cases h
    | cons part parts =>
      cases h
      exact list_yields inside .text _ _ _ read
  | list item => exact list_yields inside item
  | record r => exact record_yields inside r
  | choice c => exact choice_yields inside c

/-- What was read is nested no deeper than the reader goes. -/
theorem nesting_le_of_read (depth : Nat) (s : Shape) :
    Yields (fun v => (s.json v).nesting ≤ depth) (read depth s) := by
  induction depth generalizing s with
  | zero => exact readWith_yields (fun read h => by cases h) s
  | succ depth ih =>
    refine readWith_yields (fun read h => ?_) s
    cases h
    exact ⟨depth, rfl, ih⟩

end River.Exchange
