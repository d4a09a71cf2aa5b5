import Mathlib.Data.List.Nodup
import River.Json.Doc
import River.Json.Head
import River.Proofs.Exchange.Encoding

/-! What a document stands for in a shape, however it is laid out. The members of a record stand in
any order, some may be absent and others of no meaning; or its fields stand in an array. -/
namespace River.Exchange

open River.Json

abbrev Record.names (r : Record) : List String := r.fields.map Prod.fst

/-- A document that stands for contents of a shape. -/
inductive Denotes : (s : Shape) → Doc → s.Content → Prop where
  | unplaced : Denotes .pos .null Pos.unplaced
  | offset : n < wordLimit → Denotes .pos (.number n) (Pos.ofOffset n)
  | text : Denotes .text (.string s) s
  | flag : Denotes .flag (.bool b) b
  | noLabel : Denotes .label .null (none : Option String)
  | label : Denotes .label (.string s) (some s)
  | unit : Denotes .unit .null ()
  | blockName {n : BlockName} : Denotes (.list .text) d n.parts → Denotes .blockName d n
  | list {vs : List item.Content} : ds.length = vs.length →
      (∀ (i : Nat) d v, ds[i]? = some d → vs[i]? = some v → Denotes item d v) →
      Denotes (.list item) (.array ds) vs
  | elements {r : Record} {row : Row r.fields} : ds.length = r.fields.length →
      (∀ (i : Nat) d e, ds[i]? = some d → (Row.entries r.fields row)[i]? = some e →
        Denotes e.shape d e.value) →
      Denotes (.record r) (.array ds) (r.build row)
  /-- No name stands twice, and what is no name of a field is not read. -/
  | members {r : Record} {row : Row r.fields} :
      (ms.map Prod.fst).Pairwise (fun k l => k = l → k ∉ r.names) →
      (∀ m ∈ ms, m.1 ∉ r.names → m.2 = .unread) →
      (∀ e ∈ Row.entries r.fields row, e.name ∈ ms.map Prod.fst ∨ e.shape.absent? = some e.value) →
      (∀ e ∈ Row.entries r.fields row, ∀ d, (e.name, d) ∈ ms → Denotes e.shape d e.value) →
      Denotes (.record r) (.object ms) (r.build row)
  | bare : c.variants.find? (·.name == name) = some ⟨name, .unit, make⟩ →
      Denotes (.choice c) (.string name) (make ())
  | tagged {variant : Variant c.Content} {w : variant.payload.Content} :
      c.variants.find? (·.name == name) = some variant → Denotes variant.payload d w →
      Denotes (.choice c) (.object [(name, d)]) (variant.make w)

theorem Row.entry_unique {fields : Fields} {row : Row fields} {d e : Entry}
    (distinct : (fields.map Prod.fst).Nodup) (left : d ∈ Row.entries fields row)
    (right : e ∈ Row.entries fields row) (same : d.name = e.name) : d = e :=
  List.inj_on_of_nodup_map ((Row.names_entries fields row).symm ▸ distinct) left right same

theorem denotes_items {item : Shape} {vs : List item.Content}
    (each : ∀ v ∈ vs, Denotes item (item.json v).doc v) :
    Denotes (.list item) (Json.array (vs.map item.json)).doc vs := by
  rw [Json.doc, docItems_eq, List.map_map]
  refine .list (by simp) fun i d v left right => ?_
  rw [List.getElem?_map, right] at left
  cases left
  exact each v (List.mem_of_getElem? right)

theorem denotes_members (r : Record) (row : Row r.fields)
    (each : ∀ e ∈ Row.entries r.fields row, Denotes e.shape (e.shape.json e.value).doc e.value) :
    Denotes (.record r) (r.json (r.build row)).doc (r.build row) := by
  rw [r.json_build row, Json.doc, docMembers_eq, List.map_map]
  have names : ((Row.entries r.fields row).map ((fun m => (m.1, m.2.doc)) ∘ Entry.member)).map
      Prod.fst = r.names := by
    rw [List.map_map]
    exact Row.names_entries r.fields row
  refine .members ?_ ?_ ?_ ?_
  · rw [names]
    exact r.names_distinct.imp fun differ same => absurd same differ
  · intro m member other
    exact absurd (names ▸ List.mem_map_of_mem member) other
  · intro e member
    left
    rw [names, Record.names, ← Row.names_entries r.fields row]
    exact List.mem_map_of_mem member
  · intro e member d written
    obtain ⟨e', member', same⟩ := List.mem_map.mp written
    obtain ⟨name, rfl⟩ := Prod.mk.inj same
    obtain rfl := Row.entry_unique r.names_distinct member' member name
    exact each e' member'

theorem denotes_choice (c : Choice) (v : c.Content)
    (below : ∀ s, ∀ w : s.Content, s.Fits w → (s.json w).nesting < (c.json v).nesting →
      Denotes s (s.json w).doc w) : Denotes (.choice c) (c.json v).doc v := by
  rcases c.written v with
    ⟨name, make, found, rfl, written⟩ | ⟨variant, w, found, rfl, fits, written⟩
  all_goals rw [written] at below ⊢
  · exact .bare found
  · exact .tagged found (below variant.payload w fits (by simp [nesting, membersNesting,
      memberNesting]))

/-- What is written stands for what was written. -/
theorem denotes_json (s : Shape) (v : s.Content) (fits : s.Fits v) :
    Denotes s (s.json v).doc v := by
  -- the shapes are mutually recursive, so the induction is on the nesting of what is written
  induction deep : (s.json v).nesting using Nat.strongRecOn generalizing s v with
  | _ n ih =>
    subst deep
    have below (s' : Shape) (w : s'.Content) (fits : s'.Fits w)
        (less : (s'.json w).nesting < (s.json v).nesting) := ih _ less s' w fits rfl
    cases s with
    | pos =>
      cases v with
      | unplaced => exact .unplaced
      | byte n le_last =>
        have fits : n < wordLimit := Nat.lt_of_le_of_lt le_last (by decide)
        have offset := Denotes.offset fits
        simp only [Pos.ofOffset, Nat.min_eq_left le_last] at offset
        exact offset
    | text => exact .text
    | flag => exact .flag
    | label => cases v <;> constructor
    | unit => exact .unit
    | blockName => exact .blockName (denotes_items fun _ _ => .text)
    | list item =>
      exact denotes_items fun w member => below item w (fits w member)
        (Nat.lt_succ_of_le (itemsNesting_le.mp (Nat.le_refl _) w member))
    | record r =>
      obtain ⟨row, rfl⟩ := fits
      have inside := Row.fits_entry r.fields row r.fits_field
      refine denotes_members r row fun e member => below e.shape e.value (inside e member) ?_
      rw [Shape.json, r.json_build row]
      exact Nat.lt_succ_of_le (membersNesting_le.mp (Nat.le_refl _) e member)
    | choice c => exact denotes_choice c v below

end River.Exchange
