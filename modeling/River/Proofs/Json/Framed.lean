import River.Proofs.Json.Scanning
import River.Proofs.Json.Skipped

/-! What a text spells up to its rest does not depend on the rest. So one rest can be exchanged for
another, as long as it does not continue a number that stands in front of it. -/
namespace River.Json

/-- The text goes up to its rest, and `p` holds as well with every other rest that is allowed. -/
def Framed (allowed : List Char → Prop) (p : List Char → List Char → Prop)
    (text rest : List Char) : Prop :=
  ∃ lead, text = lead ++ rest ∧ ∀ after, allowed after → p (lead ++ after) after

/-- Brackets and quotes tell themselves where they end. -/
abbrev Closed := Framed fun _ => True

theorem Framed.append (framed : Framed allowed p text rest) (goes : allowed (rest ++ after)) :
    p (text ++ after) (rest ++ after) := by
  obtain ⟨lead, rfl, others⟩ := framed
  rw [List.append_assoc]
  exact others _ goes

theorem StringText.closed (string : StringText text rest) : Closed StringText text rest := by
  induction string with
  | nil => exact ⟨['"'], rfl, fun _ _ => .nil⟩
  | @raw c _ _ least quote backslash _ ih =>
    obtain ⟨lead, rfl, others⟩ := ih
    exact ⟨c :: lead, rfl, fun after _ => .raw least quote backslash (others after trivial)⟩
  | @letter letter _ _ _ escape _ ih =>
    obtain ⟨lead, rfl, others⟩ := ih
    exact ⟨'\\' :: letter :: lead, rfl, fun after _ => .letter escape (others after trivial)⟩
  | @word _ digits _ _ hex _ ih =>
    obtain ⟨lead, rfl, others⟩ := ih
    refine ⟨'\\' :: 'u' :: (digits ++ lead), by simp, fun after _ => ?_⟩
    simp only [List.cons_append, List.append_assoc]
    exact .word hex (others after trivial)

theorem SpellsString.closed (string : SpellsString cs text rest) :
    Closed (SpellsString cs) text rest := by
  induction string with
  | nil => exact ⟨['"'], rfl, fun _ _ => .nil⟩
  | @cons _ mark _ _ _ char _ ih =>
    obtain ⟨lead, rfl, others⟩ := ih
    refine ⟨mark ++ lead, by simp, fun after _ => ?_⟩
    rw [List.append_assoc]
    exact .cons char (others after trivial)

mutual

/-- Only a number can be continued by what follows. -/
theorem Wellformed.framed : ∀ {text rest : List Char},
    Wellformed text rest → Framed EndsNumber Wellformed text rest
  | _, _, .null => ⟨['n', 'u', 'l', 'l'], rfl, fun _ _ => .null⟩
  | _, _, .isTrue => ⟨['t', 'r', 'u', 'e'], rfl, fun _ _ => .isTrue⟩
  | _, _, .isFalse => ⟨['f', 'a', 'l', 's', 'e'], rfl, fun _ _ => .isFalse⟩
  | _, _, .number digits _ => ⟨_, rfl, fun _ ends => .number digits ends⟩
  | _, _, .string chars => by
    obtain ⟨lead, rfl, others⟩ := chars.closed
    exact ⟨'"' :: lead, rfl, fun after _ => .string (others after trivial)⟩
  | _, _, .array items => by
    obtain ⟨lead, rfl, others⟩ := items.closed
    exact ⟨'[' :: lead, rfl, fun after _ => .array (others after trivial)⟩
  | _, _, .object members => by
    obtain ⟨lead, rfl, others⟩ := members.closed
    exact ⟨'\x7b' :: lead, rfl, fun after _ => .object (others after trivial)⟩

theorem WellformedItems.closed : ∀ {first : Bool} {text rest : List Char},
    WellformedItems first text rest → Closed (WellformedItems first) text rest
  | _, _, _, @WellformedItems.nil before _ _ blank =>
    ⟨before ++ [']'], by simp, fun after _ => by simpa using .nil blank⟩
  | _, _, _, @WellformedItems.cons _ sep _ _ _ mark value more => by
    have value' := value.framed
    obtain ⟨items, rfl, others⟩ := more.closed
    obtain ⟨lead, rfl, value'⟩ := value'
    refine ⟨sep ++ (lead ++ items), by simp, fun after _ => ?_⟩
    have more := others after trivial
    rw [List.append_assoc, List.append_assoc]
    exact .cons mark (value' _ more.endsNumber) more

theorem WellformedMembers.closed : ∀ {first : Bool} {text rest : List Char},
    WellformedMembers first text rest → Closed (WellformedMembers first) text rest
  | _, _, _, @WellformedMembers.nil before _ _ blank =>
    ⟨before ++ ['\x7d'], by simp, fun after _ => by simpa using .nil blank⟩
  | _, _, _, @WellformedMembers.cons _ sep _ sign _ _ _ mark key colon value more => by
    have value' := value.framed
    obtain ⟨members, rfl, others⟩ := more.closed
    obtain ⟨lead, rfl, value'⟩ := value'
    obtain ⟨chars, rfl, key'⟩ := key.closed
    refine ⟨sep ++ '"' :: (chars ++ (sign ++ (lead ++ members))), by simp, fun after _ => ?_⟩
    have more := others after trivial
    simp only [List.append_assoc, List.cons_append]
    exact .cons mark (key' _ trivial) colon (value' _ more.endsNumber) more

end

mutual

theorem Spells.framed : ∀ {d : Doc} {text rest : List Char},
    Spells d text rest → Framed EndsNumber (Spells d) text rest
  | _, _, _, .unread value => by
    obtain ⟨lead, rfl, others⟩ := value.framed
    exact ⟨lead, rfl, fun after ends => .unread (others after ends)⟩
  | _, _, _, .null => ⟨['n', 'u', 'l', 'l'], rfl, fun _ _ => .null⟩
  | _, _, _, .isTrue => ⟨['t', 'r', 'u', 'e'], rfl, fun _ _ => .isTrue⟩
  | _, _, _, .isFalse => ⟨['f', 'a', 'l', 's', 'e'], rfl, fun _ _ => .isFalse⟩
  | _, _, _, .number _ => ⟨_, rfl, fun _ ends => .number ends⟩
  | _, _, _, .string chars => by
    obtain ⟨lead, rfl, others⟩ := chars.closed
    exact ⟨'"' :: lead, rfl, fun after _ => .string (others after trivial)⟩
  | _, _, _, .array items => by
    obtain ⟨lead, rfl, others⟩ := items.closed
    exact ⟨'[' :: lead, rfl, fun after _ => .array (others after trivial)⟩
  | _, _, _, .object members => by
    obtain ⟨lead, rfl, others⟩ := members.closed
    exact ⟨'\x7b' :: lead, rfl, fun after _ => .object (others after trivial)⟩

theorem SpellsItems.closed : ∀ {first : Bool} {ds : List Doc} {text rest : List Char},
    SpellsItems first ds text rest → Closed (SpellsItems first ds) text rest
  | _, _, _, _, @SpellsItems.nil before _ _ blank =>
    ⟨before ++ [']'], by simp, fun after _ => by simpa using .nil blank⟩
  | _, _, _, _, @SpellsItems.cons _ sep _ _ _ _ _ mark value more => by
    have value' := value.framed
    obtain ⟨items, rfl, others⟩ := more.closed
    obtain ⟨lead, rfl, value'⟩ := value'
    refine ⟨sep ++ (lead ++ items), by simp, fun after _ => ?_⟩
    have more := others after trivial
    rw [List.append_assoc, List.append_assoc]
    exact .cons mark (value' _ more.wellformed.endsNumber) more

theorem SpellsMembers.closed : ∀ {first : Bool} {ms : List (String × Doc)} {text rest : List Char},
    SpellsMembers first ms text rest → Closed (SpellsMembers first ms) text rest
  | _, _, _, _, @SpellsMembers.nil before _ _ blank =>
    ⟨before ++ ['\x7d'], by simp, fun after _ => by simpa using .nil blank⟩
  | _, _, _, _, @SpellsMembers.cons _ sep _ sign _ _ _ _ _ _ mark key colon value more => by
    have value' := value.framed
    obtain ⟨members, rfl, others⟩ := more.closed
    obtain ⟨lead, rfl, value'⟩ := value'
    obtain ⟨chars, rfl, key'⟩ := key.closed
    refine ⟨sep ++ '"' :: (chars ++ (sign ++ (lead ++ members))), by simp, fun after _ => ?_⟩
    have more := others after trivial
    simp only [List.append_assoc, List.cons_append]
    exact .cons mark (key' _ trivial) colon (value' _ more.wellformed.endsNumber) more

end

end River.Json
