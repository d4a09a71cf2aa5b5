import River.Proofs.Exchange.Rejected
import River.Proofs.Json.Framed

/-! The positions in what a shape holds, and where they stand in its documents and in their texts. A
path leads to a position whatever the layout of the document is. -/
namespace River.Exchange

open River.Json

/-- A way from what a shape holds to a position in it. -/
inductive Path : Shape → Type where
  | here : Path .pos
  | field {r : Record} {s : Shape} (key : String) (known : (key, s) ∈ r.fields) (next : Path s) :
      Path (.record r)
  | item {s : Shape} (i : Nat) (next : Path s) : Path (.list s)
  | payload {c : Choice} (variant : Variant c.Content)
      (known : c.variants.find? (·.name == variant.name) = some variant)
      (next : Path variant.payload) : Path (.choice c)

/-- The position to which a path leads. -/
def Path.Holds {s : Shape} : Path s → s.Content → Pos → Prop
  | .here, v, p => v = p
  | @Path.field r s key _ next, v, p =>
    ∃ row w, r.build row = v ∧ ⟨key, s, w⟩ ∈ Row.entries r.fields row ∧ next.Holds w p
  | @Path.item s i next, vs, p => ∃ w : s.Content, vs[i]? = some w ∧ next.Holds w p
  | .payload variant _ next, v, p => ∃ w, variant.make w = v ∧ next.Holds w p

/-- A document of the shape, as a function of what stands in it where the path ends. -/
inductive Path.Fills : {s : Shape} → Path s → (Doc → Doc) → Prop where
  | here : Fills .here id
  | member {next : Path s} (ms ns : List (String × Doc)) : Fills next fill →
      Fills (.field key known next) fun d => .object (ms ++ (key, fill d) :: ns)
  | element {r : Record} {known : (key, s) ∈ r.fields} {next : Path s} (ds es : List Doc) :
      r.fields[ds.length]? = some (key, s) → Fills next fill →
      Fills (.field key known next) fun d => .array (ds ++ fill d :: es)
  | item {next : Path s} (ds es : List Doc) : ds.length = i → Fills next fill →
      Fills (.item i next) fun d => .array (ds ++ fill d :: es)
  | payload {c : Choice} {variant : Variant c.Content} {known} {next : Path variant.payload} :
      Fills next fill →
      Fills (.payload variant known next) fun d => .object [(variant.name, fill d)]

theorem Record.build_injective (r : Record) : Function.Injective r.build := by
  cases r <;> intro row row' same <;> simp [build] at same <;> simp [Prod.ext_iff, same]

theorem Choice.make_injective (c : Choice) :
    ∀ variant ∈ c.variants, Function.Injective variant.make := by
  have constructs : Function.Injective Expr.ident := fun _ _ same => Expr.ident.inj same
  cases c with
  | stmt => simp [variants, stmtVariants, Function.injective_id]
  | expr => simp [variants, exprVariants, Function.injective_id, constructs]
  | token =>
    intro variant member
    obtain ⟨t, _, rfl⟩ := List.mem_map.mp member
    exact fun _ _ _ => rfl

theorem Path.holds_unique {path : Path s} {v : s.Content} (left : path.Holds v p)
    (right : path.Holds v q) : p = q := by
  induction path with
  | here => exact left.symm.trans right
  | @field r s key known next ih =>
    obtain ⟨row, w, rfl, entry, left⟩ := left
    obtain ⟨row', w', built, entry', right⟩ := right
    obtain rfl := r.build_injective built
    cases Row.entry_unique r.names_distinct entry entry' rfl
    exact ih left right
  | item i next ih =>
    obtain ⟨w, here, left⟩ := left
    obtain ⟨w', here', right⟩ := right
    obtain rfl := Option.some.inj (here.symm.trans here')
    exact ih left right
  | @payload c variant known next ih =>
    obtain ⟨w, rfl, left⟩ := left
    obtain ⟨w', made, right⟩ := right
    obtain rfl := c.make_injective variant (List.mem_of_find?_eq_some known) made
    exact ih left right

theorem Choice.json_make (c : Choice) {variant : Variant c.Content} {w : variant.payload.Content}
    (known : c.variants.find? (·.name == variant.name) = some variant)
    (carries : variant.payload ≠ .unit) (fits : variant.payload.Fits w) :
    c.json (variant.make w) = .object [(variant.name, variant.payload.json w)] := by
  have member := List.mem_of_find?_eq_some known
  cases c with
  | stmt =>
    simp only [variants, stmtVariants, List.mem_cons, List.not_mem_nil, or_false] at member
    rcases member with rfl | rfl <;> obtain ⟨row, rfl⟩ := fits <;> rfl
  | expr =>
    simp only [variants, exprVariants, List.mem_cons, List.not_mem_nil, or_false] at member
    rcases member with rfl | rfl | rfl | rfl | rfl | rfl | rfl | rfl | rfl | rfl <;>
      obtain ⟨row, rfl⟩ := fits <;> rfl
  | token =>
    obtain ⟨t, _, rfl⟩ := List.mem_map.mp member
    exact absurd rfl carries

theorem Choice.payload_shape (c : Choice) :
    ∀ variant ∈ c.variants, variant.payload = .unit ∨ ∃ r, variant.payload = .record r := by
  cases c <;> simp [variants, stmtVariants, exprVariants, tokenVariants]

theorem Path.fits_payload (path : Path s) {v : s.Content} (holds : path.Holds v p)
    (carried : s = .unit ∨ ∃ r, s = .record r) : s ≠ .unit ∧ s.Fits v := by
  cases path with
  | field key known next =>
    obtain ⟨row, w, built, -⟩ := holds
    exact ⟨nofun, row, built⟩
  | _ => simp at carried

/-- What is written has, where the path ends, what is written for the position. -/
theorem Path.written {path : Path s} {v : s.Content} (holds : path.Holds v p) (fits : s.Fits v) :
    ∃ fill, path.Fills fill ∧ (s.json v).doc = fill p.json.doc := by
  induction path with
  | here =>
    cases holds
    exact ⟨id, .here, rfl⟩
  | @field r s key known next ih =>
    obtain ⟨row, w, rfl, entry, holds⟩ := holds
    obtain ⟨fill, fills, written⟩ :=
      ih holds (Row.fits_entry r.fields row r.fits_field _ entry)
    obtain ⟨before, after, split⟩ := List.append_of_mem entry
    rw [Shape.json, r.json_build row, Json.doc, docMembers_eq, split]
    simp only [List.map_append, List.map_cons, Entry.member, written]
    exact ⟨_, .member _ _ fills, rfl⟩
  | @item s i next ih =>
    obtain ⟨w, here, holds⟩ := holds
    obtain ⟨fill, fills, written⟩ := ih holds (fits w (List.mem_of_getElem? here))
    obtain ⟨bound, same⟩ := List.getElem?_eq_some_iff.mp here
    have split := List.take_append_drop i v
    rw [List.drop_eq_getElem_cons bound, same] at split
    rw [Shape.json, Json.doc, docItems_eq, ← split]
    simp only [List.map_append, List.map_cons, written]
    exact ⟨_, .item _ _ (by simp [Nat.le_of_lt bound]) fills, rfl⟩
  | @payload c variant known next ih =>
    obtain ⟨w, rfl, holds⟩ := holds
    have carried := c.payload_shape variant (List.mem_of_find?_eq_some known)
    obtain ⟨carries, fits⟩ := next.fits_payload holds carried
    obtain ⟨fill, fills, written⟩ := ih holds fits
    rw [Shape.json, c.json_make known carries fits]
    simp only [Json.doc, docMembers, docMember, written]
    exact ⟨_, .payload fills, rfl⟩

theorem Row.update {fields : Fields} (row : Row fields) {i : Nat} (field : fields[i]? = some (key, s))
    (w : s.Content) :
    ∃ row', Row.entries fields row' = (Row.entries fields row).set i ⟨key, s, w⟩ := by
  induction fields generalizing i with
  | nil => cases field
  | cons field' fields ih =>
    cases i with
    | zero =>
      cases field
      exact ⟨(w, row.2), rfl⟩
    | succ i =>
      obtain ⟨row', same⟩ := ih row.2 field
      exact ⟨(row.1, row'), congrArg (_ :: ·) same⟩

/-- Only the field that was updated has an entry that the row before did not have. -/
theorem Row.mem_update {r : Record} {row row' : Row r.fields} {w : s.Content} {i : Nat}
    (field : r.fields[i]? = some (key, s))
    (update : Row.entries r.fields row' = (Row.entries r.fields row).set i ⟨key, s, w⟩)
    (entry : e ∈ Row.entries r.fields row') :
    e = ⟨key, s, w⟩ ∨ e.name ≠ key ∧ e ∈ Row.entries r.fields row := by
  have here : ⟨key, s, w⟩ ∈ Row.entries r.fields row' := by
    obtain ⟨v, old⟩ := Row.entry_at row field
    exact update ▸ List.mem_of_getElem? (getElem?_set_same old)
  by_cases named : e.name = key
  · exact .inl (Row.entry_unique r.names_distinct entry here named)
  · refine .inr ⟨named, (List.mem_or_eq_of_mem_set (update ▸ entry)).resolve_right ?_⟩
    rintro rfl
    exact named rfl

theorem Conforms.put_member (conforms : Conforms (.record r) (.object (ms ++ (key, d) :: ns)))
    (known : (key, s) ∈ r.fields) (fits : Conforms s d') :
    Conforms (.record r) (.object (ms ++ (key, d') :: ns)) := by
  have once := conforms.once
  obtain ⟨v, means⟩ := conforms
  obtain ⟨w, fits⟩ := fits
  obtain ⟨i, field⟩ := List.mem_iff_getElem?.mp known
  have names : (ms ++ (key, d) :: ns).map Prod.fst = (ms ++ (key, d') :: ns).map Prod.fst := by
    simp
  cases means with
  | @members _ _ row _ others present value =>
    obtain ⟨row', update⟩ := Row.update row field w
    refine ⟨r.build row', .members (names ▸ once) ?_ ?_ ?_⟩
    · intro m member unknown
      simp only [List.mem_append, List.mem_cons] at member others
      rcases member with before | rfl | after
      · exact others m (.inl before) unknown
      · exact absurd (List.mem_map_of_mem known) unknown
      · exact others m (.inr (.inr after)) unknown
    · intro e entry
      rcases Row.mem_update field update entry with rfl | ⟨-, old⟩
      · exact .inl (by simp)
      · exact names ▸ present e old
    · intro e entry x member
      simp only [List.mem_append, List.mem_cons, Prod.mk.injEq] at member value
      rcases Row.mem_update field update entry with rfl | ⟨other, old⟩
      · rw [List.map_append, List.map_cons] at once
        have gone := notMem_of_once once (List.mem_map_of_mem known)
        rw [← List.map_append] at gone
        rcases member with before | ⟨-, rfl⟩ | after
        · exact absurd (List.mem_map_of_mem (List.mem_append_left ns before)) gone
        · exact fits
        · exact absurd (List.mem_map_of_mem (List.mem_append_right ms after)) gone
      · exact value e old x (member.imp_right (.imp_left fun same => absurd same.1 other))

theorem getElem?_middle (ds es : List α) (d : α) : (ds ++ d :: es)[ds.length]? = some d := by simp

theorem getElem?_put {ds es : List α} (here : (ds ++ d' :: es)[i]? = some x) :
    i = ds.length ∧ x = d' ∨ i ≠ ds.length ∧ ∀ d, (ds ++ d :: es)[i]? = some x := by
  by_cases there : i = ds.length
  · subst there
    rw [getElem?_middle] at here
    exact .inl ⟨rfl, (Option.some.inj here).symm⟩
  · refine .inr ⟨there, fun d => ?_⟩
    have put : (ds ++ d :: es).set ds.length d' = ds ++ d' :: es := by simp
    rwa [← put, List.getElem?_set_ne (Ne.symm there)] at here

theorem Conforms.put_element (conforms : Conforms (.record r) (.array (ds ++ d :: es)))
    (field : r.fields[ds.length]? = some (key, s)) (fits : Conforms s d') :
    Conforms (.record r) (.array (ds ++ d' :: es)) := by
  obtain ⟨v, means⟩ := conforms
  obtain ⟨w, fits⟩ := fits
  cases means with
  | @elements _ _ row same each =>
    obtain ⟨row', update⟩ := Row.update row field w
    refine ⟨r.build row', .elements (by simpa using same) fun i x e left right => ?_⟩
    rw [update] at right
    rcases getElem?_put left with ⟨rfl, rfl⟩ | ⟨other, left⟩
    · obtain ⟨_, old⟩ := Row.entry_at row field
      rw [getElem?_set_same old] at right
      cases right
      exact fits
    · rw [List.getElem?_set_ne other.symm] at right
      exact each i x e (left d) right

theorem Conforms.put_item (conforms : Conforms (.list s) (.array (ds ++ d :: es)))
    (fits : Conforms s d') : Conforms (.list s) (.array (ds ++ d' :: es)) := by
  obtain ⟨v, means⟩ := conforms
  obtain ⟨w, fits⟩ := fits
  cases means with
  | list same each =>
    have bound : ds.length < List.length v := by rw [← same]; simp
    refine ⟨List.set v ds.length w, .list (by simpa using same) fun i x v left right => ?_⟩
    rcases getElem?_put left with ⟨rfl, rfl⟩ | ⟨other, left⟩
    · rw [List.getElem?_set_self bound] at right
      cases right
      exact fits
    · rw [List.getElem?_set_ne other.symm] at right
      exact each i x v (left d) right

theorem Path.Fills.conforms {path : Path s} (fills : path.Fills fill) (conforms : Conforms s (fill d))
    (position : Conforms .pos d') : Conforms s (fill d') := by
  induction fills with
  | here => exact position
  | @member _ _ _ _ known _ _ _ _ ih =>
    exact conforms.put_member known (ih (conforms.field known (by simp)))
  | element _ _ field _ ih =>
    exact conforms.put_element field (ih (conforms.element field (getElem?_middle _ _ _)))
  | item _ _ here _ ih => exact conforms.put_item (ih (conforms.item (getElem?_middle _ _ _)))
  | @payload _ c variant known next fills ih =>
    obtain ⟨w, means⟩ := ih (conforms.payload known)
    exact ⟨_, .tagged known means⟩

theorem Path.Fills.nesting_le {path : Path s} (fills : path.Fills fill)
    (flat : d'.nesting ≤ d.nesting) : (fill d').nesting ≤ (fill d).nesting := by
  induction fills with
  | here => exact flat
  | member _ _ _ ih =>
    simp only [Doc.nesting, Doc.membersNesting_append, Doc.membersNesting, Doc.memberNesting]
    omega
  | element _ _ _ _ ih | item _ _ _ _ ih =>
    simp only [Doc.nesting, Doc.itemsNesting_append, Doc.itemsNesting]
    omega
  | payload _ ih =>
    simp only [Doc.nesting, Doc.membersNesting, Doc.memberNesting]
    omega

end River.Exchange
