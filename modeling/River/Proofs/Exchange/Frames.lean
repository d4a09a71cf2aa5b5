import River.Proofs.Exchange.Paths

/-! The text around a document that is a part of another one. It does not depend on what stands
there, and whatever value stands there is found again as that part. -/
namespace River.Exchange

open River.Json

/-- With any document between `before` and `after`, the text spells what `put` makes of it; and of
whatever it spells, `part` tells what stands there. -/
structure Frame (whole : α → List Char → List Char → Prop) (put : Doc → α) (part : α → Doc → Prop)
    (before after rest : List Char) : Prop where
  ends : EndsNumber after
  spells : Spells d body after → whole (put d) (before ++ body) rest
  finds : Wellformed body after → whole a (before ++ body) rest → ∃ d, part a d ∧ Spells d body after

/-- A text in which a document stands in a frame. -/
def Framing (whole : α → List Char → List Char → Prop) (put : Doc → α) (part : α → Doc → Prop)
    (d : Doc) (text rest : List Char) : Prop :=
  ∃ before body after, text = before ++ body ∧ Spells d body after ∧
    Frame whole put part before after rest

namespace Framing

theorem imp (framing : Framing whole put part d text rest) (weaker : ∀ a x, part a x → part' a x) :
    Framing whole put part' d text rest := by
  obtain ⟨before, body, after, split, spells, frame⟩ := framing
  refine ⟨before, body, after, split, spells, frame.ends, frame.spells, fun value spells' => ?_⟩
  obtain ⟨x, found, spells''⟩ := frame.finds value spells'
  exact ⟨x, weaker _ x found, spells''⟩

theorem inside (outer : Framing whole put part (put' d) text rest)
    (inner : ∀ {text rest}, Spells (put' d) text rest → EndsNumber rest →
      Framing Spells put' part' d text rest) :
    Framing whole (put ∘ put') (fun a x => ∃ e, part a e ∧ part' e x) d text rest := by
  obtain ⟨before, _, next, rfl, spells, outer⟩ := outer
  obtain ⟨lead, body, after, rfl, spells, inner⟩ := inner spells outer.ends
  refine ⟨before ++ lead, body, after, by simp, spells, inner.ends, fun value => ?_,
    fun value spells => ?_⟩
  · rw [List.append_assoc]
    exact outer.spells (inner.spells value)
  · rw [List.append_assoc] at spells
    obtain ⟨e, found, spells'⟩ := outer.finds (inner.spells (.unread value)).wellformed spells
    obtain ⟨x, found', spells''⟩ := inner.finds value spells'
    exact ⟨x, ⟨e, found, found'⟩, spells''⟩

theorem array (framing : Framing (SpellsItems true) put part d text rest) :
    Framing Spells (fun d => .array (put d))
      (fun e x => e = .unread ∨ ∃ ds, e = .array ds ∧ part ds x) d ('[' :: text) rest := by
  obtain ⟨before, body, after, rfl, spells, frame⟩ := framing
  refine ⟨'[' :: before, body, after, rfl, spells, frame.ends,
    fun value => .array (frame.spells value), fun {body e} value spells => ?_⟩
  rcases spells_bracket spells with rfl | ⟨ds, rfl, items⟩
  · exact ⟨.unread, .inl rfl, .unread value⟩
  · obtain ⟨x, found, spells⟩ := frame.finds value items
    exact ⟨x, .inr ⟨ds, rfl, found⟩, spells⟩

theorem object (framing : Framing (SpellsMembers true) put part d text rest) :
    Framing Spells (fun d => .object (put d))
      (fun e x => e = .unread ∨ ∃ ms, e = .object ms ∧ part ms x) d ('\x7b' :: text) rest := by
  obtain ⟨before, body, after, rfl, spells, frame⟩ := framing
  refine ⟨'\x7b' :: before, body, after, rfl, spells, frame.ends,
    fun value => .object (frame.spells value), fun {body e} value spells => ?_⟩
  rcases spells_brace spells with rfl | ⟨ms, rfl, members⟩
  · exact ⟨.unread, .inl rfl, .unread value⟩
  · obtain ⟨x, found, spells⟩ := frame.finds value members
    exact ⟨x, .inr ⟨ms, rfl, found⟩, spells⟩

end Framing

theorem SpellsItems.framing (spells : SpellsItems first (ds ++ d :: es) text rest) :
    Framing (SpellsItems first) (fun d => ds ++ d :: es) (fun fs e => fs[ds.length]? = some e)
      d text rest := by
  induction ds generalizing first text with
  | nil =>
    cases spells with
    | @cons _ mark _ body after _ _ sep value more =>
      refine ⟨mark, body, after, rfl, value, SpellsItems.endsNumber more,
        fun value' => .cons sep value' more, fun value' spells => ?_⟩
      obtain ⟨e, _, rfl, spelled, -⟩ := SpellsItems.starts sep value' spells
      exact ⟨e, rfl, spelled⟩
  | cons d₀ ds ih =>
    cases spells with
    | @cons _ mark _ _ _ _ _ sep value more =>
      obtain ⟨before, body, after, rfl, spells, frame⟩ := ih more
      obtain ⟨lead, rfl, others⟩ := value.framed
      -- the item before stays what it is, since what follows it cannot continue a number
      have head {x : List Char} (value' : Wellformed x after) :=
        others _ (SpellsItems.endsNumber (frame.spells (.unread value')))
      refine ⟨mark ++ (lead ++ before), body, after, by simp, spells, frame.ends,
        fun value' => ?_, fun value' spells => ?_⟩
      · simp only [List.append_assoc]
        exact .cons sep (head value'.wellformed) (frame.spells value')
      · simp only [List.append_assoc] at spells
        obtain ⟨_, _, rfl, -, more'⟩ := SpellsItems.starts sep (head value').wellformed spells
        exact frame.finds value' more'

theorem SpellsMembers.framing (spells : SpellsMembers first (ms ++ (key, d) :: ns) text rest) :
    Framing (SpellsMembers first) (fun d => ms ++ (key, d) :: ns)
      (fun fs e => fs[ms.length]? = some (key, e)) d text rest := by
  induction ms generalizing first text with
  | nil =>
    cases spells with
    | @cons _ mark _ sign body _ after _ _ _ sep string colon value more =>
      obtain ⟨name, rfl, others⟩ := string.closed
      have named (x : List Char) := others (sign ++ x) trivial
      refine ⟨mark ++ '"' :: (name ++ sign), body, after, by simp, value,
        SpellsMembers.endsNumber more, fun value' => ?_, fun value' spells => ?_⟩
      · simp only [List.append_assoc, List.cons_append]
        exact .cons sep (named _) colon value' more
      · simp only [List.append_assoc, List.cons_append] at spells
        obtain ⟨e, _, rfl, spelled, -⟩ := SpellsMembers.starts sep (named _) colon value' spells
        exact ⟨e, rfl, spelled⟩
  | cons m ms ih =>
    cases spells with
    | @cons _ mark _ sign _ _ _ _ _ _ sep string colon value more =>
      obtain ⟨before, body, after, rfl, spells, frame⟩ := ih more
      obtain ⟨lead, rfl, others⟩ := value.framed
      obtain ⟨name, rfl, others'⟩ := string.closed
      have named (x : List Char) := others' (sign ++ (lead ++ (before ++ x))) trivial
      have head {x : List Char} (value' : Wellformed x after) :=
        others _ (SpellsMembers.endsNumber (frame.spells (.unread value')))
      refine ⟨mark ++ '"' :: (name ++ (sign ++ (lead ++ before))), body, after, by simp, spells,
        frame.ends, fun value' => ?_, fun value' spells => ?_⟩
      · simp only [List.append_assoc, List.cons_append]
        exact .cons sep (named _) colon (head value'.wellformed) (frame.spells value')
      · simp only [List.append_assoc, List.cons_append] at spells
        obtain ⟨_, _, rfl, -, more'⟩ :=
          SpellsMembers.starts sep (named _) colon (head value').wellformed spells
        exact frame.finds value' more'

/-- A document has `x` where the path ends if what it stands for has there what `x` stands for. -/
def Path.Finds {s : Shape} (path : Path s) (e x : Doc) : Prop :=
  ∀ v, Denotes s e v → ∃ p, Denotes .pos x p ∧ path.Holds v p

theorem Path.finds_member {r : Record} {next : Path s} {known : (key, s) ∈ r.fields} {i : Nat}
    (found : e = .unread ∨ ∃ ms : List (String × Doc), e = .object ms ∧ ms[i]? = some (key, d))
    (inside : next.Finds d x) : (Path.field key known next).Finds e x := by
  intro v means
  rcases found with rfl | ⟨ms, rfl, here⟩
  · exact absurd ⟨v, means⟩ not_conforms_unread
  · cases means with
    | @members _ _ row _ _ _ value =>
      obtain ⟨w, entry⟩ := Row.entry_of_field row known
      obtain ⟨p, position, holds⟩ := inside w (value _ entry d (List.mem_of_getElem? here))
      exact ⟨p, position, row, w, rfl, entry, holds⟩

theorem Path.finds_element {r : Record} {next : Path s} {known : (key, s) ∈ r.fields} {i : Nat}
    (field : r.fields[i]? = some (key, s))
    (found : e = .unread ∨ ∃ ds : List Doc, e = .array ds ∧ ds[i]? = some d)
    (inside : next.Finds d x) : (Path.field key known next).Finds e x := by
  intro v means
  rcases found with rfl | ⟨ds, rfl, here⟩
  · exact absurd ⟨v, means⟩ not_conforms_unread
  · cases means with
    | @elements _ _ row _ each =>
      obtain ⟨w, entry⟩ := Row.entry_at row field
      obtain ⟨p, position, holds⟩ := inside w (each i d _ here entry)
      exact ⟨p, position, row, w, rfl, List.mem_of_getElem? entry, holds⟩

theorem Path.finds_item {next : Path s} {i : Nat}
    (found : e = .unread ∨ ∃ ds : List Doc, e = .array ds ∧ ds[i]? = some d)
    (inside : next.Finds d x) : (Path.item i next).Finds e x := by
  intro v means
  rcases found with rfl | ⟨ds, rfl, here⟩
  · exact absurd ⟨v, means⟩ not_conforms_unread
  · cases means with
    | list same each =>
      obtain ⟨bound, _⟩ := List.getElem?_eq_some_iff.mp here
      have item := List.getElem?_eq_getElem (same ▸ bound)
      obtain ⟨p, position, holds⟩ := inside _ (each i d _ here item)
      exact ⟨p, position, _, item, holds⟩

theorem Path.finds_payload {c : Choice} {variant : Variant c.Content} {known}
    {next : Path variant.payload}
    (found : e = .unread ∨ ∃ ms : List (String × Doc), e = .object ms ∧
      ms[0]? = some (variant.name, d))
    (inside : next.Finds d x) : (Path.payload variant known next).Finds e x := by
  intro v means
  rcases found with rfl | ⟨ms, rfl, here⟩
  · exact absurd ⟨v, means⟩ not_conforms_unread
  · cases means with
    | tagged found means =>
      cases here
      obtain rfl := Option.some.inj (known.symm.trans found)
      obtain ⟨p, position, holds⟩ := inside _ means
      exact ⟨p, position, _, rfl, holds⟩

/-- What a path leads to stands in a frame of the whole text. -/
theorem Path.Fills.framing {path : Path s} (fills : path.Fills fill)
    (spells : Spells (fill d) text rest) (ends : EndsNumber rest) :
    Framing Spells fill path.Finds d text rest := by
  induction fills generalizing text rest with
  | here =>
    exact ⟨[], text, rest, rfl, spells, ends, id, fun {_ e} _ spells' =>
      ⟨e, fun v means => ⟨v, means, rfl⟩, spells'⟩⟩
  | member _ _ _ ih =>
    cases spells with
    | object members =>
      exact ((SpellsMembers.framing members).object.inside ih).imp fun e x ⟨_, found, below⟩ =>
        finds_member found below
  | element _ _ field _ ih =>
    cases spells with
    | array items =>
      exact ((SpellsItems.framing items).array.inside ih).imp fun e x ⟨_, found, below⟩ =>
        finds_element field found below
  | item _ _ here _ ih =>
    subst here
    cases spells with
    | array items =>
      exact ((SpellsItems.framing items).array.inside ih).imp fun e x ⟨_, found, below⟩ =>
        finds_item found below
  | payload _ ih =>
    cases spells with
    | object members =>
      have single := @SpellsMembers.framing true [] _ _ [] _ _ members
      exact (single.object.inside ih).imp fun e x ⟨_, found, below⟩ => finds_payload found below

abbrev Path.Frame {s : Shape} (path : Path s) (fill : Doc → Doc) (before after : List Char) : Prop :=
  Exchange.Frame (fun d text _ => SpellsText d text) fill path.Finds before after []

theorem Path.Fills.framing_text {path : Path s} (fills : path.Fills fill)
    (spells : SpellsText (fill d) text) :
    ∃ before body after, text = before ++ body ∧ Spells d body after ∧
      path.Frame fill before after := by
  obtain ⟨blanks, _, rest, blank, blank', rfl, spells⟩ := spells
  have ends : EndsNumber (rest ++ []) := endsNumber_append blank' (by simp [EndsNumber])
  rw [List.append_nil] at ends
  obtain ⟨lead, body, after, rfl, spells, frame⟩ := fills.framing spells ends
  refine ⟨blanks ++ lead, body, after, by simp, spells, frame.ends, fun value => ?_, ?_⟩
  · exact ⟨blanks, _, rest, blank, blank', by simp, frame.spells value⟩
  · rintro x e value ⟨blanks', body', rest', before, -, same, spells'⟩
    have spells'' := frame.spells (.unread value)
    rw [List.append_assoc] at same
    obtain rfl := value_unique blank before spells'' spells' same
    obtain rfl := Wellformed.unique spells''.wellformed spells'.wellformed
    exact frame.finds value spells'

end River.Exchange
