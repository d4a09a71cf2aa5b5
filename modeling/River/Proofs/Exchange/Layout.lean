import Mathlib.Logic.Relation
import River.Exchange
import River.Proofs.Exchange.Spelled

/-! Reading depends on the members of records, not on how they are laid out: their order, members of
no meaning, absent positions and labels, and arrays in place of objects make no difference. -/
namespace River.Exchange

open River.Json

/-- One change of the layout of a document. It is made to a record, which may stand anywhere. -/
inductive Edit : Shape → Doc → Doc → Prop where
  | permute : ms.Perm ns → Edit (.record r) (.object ms) (.object ns)
  | insert : key ∉ r.names →
      Edit (.record r) (.object (ms ++ ns)) (.object (ms ++ (key, .unread) :: ns))
  | drop : (key, s) ∈ r.fields → s = .pos ∨ s = .label →
      Edit (.record r) (.object (ms ++ (key, .null) :: ns)) (.object (ms ++ ns))
  /-- What has been dropped is null in the array. -/
  | array : Edit (.record r) (.object ms)
      (.array (r.fields.map fun f => (ms.lookup f.1).getD .null))
  | member : (key, s) ∈ r.fields → ms[i]? = some (key, d) → Edit s d d' →
      Edit (.record r) (.object ms) (.object (ms.set i (key, d')))
  | element : r.fields[i]? = some (key, s) → ds[i]? = some d → Edit s d d' →
      Edit (.record r) (.array ds) (.array (ds.set i d'))
  | item : ds[i]? = some d → Edit s d d' → Edit (.list s) (.array ds) (.array (ds.set i d'))
  | payload {variant : Variant c.Content} : c.variants.find? (·.name == name) = some variant →
      Edit variant.payload d d' → Edit (.choice c) (.object [(name, d)]) (.object [(name, d')])

theorem mem_of_lookup {ms : List (String × Doc)} (found : ms.lookup key = some d) :
    (key, d) ∈ ms := by
  obtain ⟨before, after, rfl, _⟩ := List.lookup_eq_some_iff.mp found
  simp

theorem notMem_of_lookup {ms : List (String × Doc)} (absent : ms.lookup key = none) :
    key ∉ ms.map Prod.fst := by
  intro member
  obtain ⟨m, listed, rfl⟩ := List.mem_map.mp member
  simpa using List.lookup_eq_none_iff.mp absent m listed

theorem Edit.nesting_le (edit : Edit s d d') : d'.nesting ≤ d.nesting := by
  induction edit with
  | permute perm =>
    refine Nat.succ_le_succ (Doc.membersNesting_le.mpr fun m member => ?_)
    exact Doc.nesting_le_members (perm.mem_iff.mpr member)
  | @insert key r ms ns other =>
    refine Nat.succ_le_succ (Doc.membersNesting_le.mpr fun m member => ?_)
    rcases List.mem_append.mp member with before | after
    · exact Doc.nesting_le_members (List.mem_append_left ns before)
    · rcases List.mem_cons.mp after with rfl | after
      · exact Nat.zero_le _
      · exact Doc.nesting_le_members (List.mem_append_right ms after)
  | @drop key s r ms ns field empty =>
    refine Nat.succ_le_succ (Doc.membersNesting_le.mpr fun m member => ?_)
    refine Doc.nesting_le_members ?_
    simp only [List.mem_append, List.mem_cons] at member ⊢
    tauto
  | @array r ms =>
    refine Nat.succ_le_succ (Doc.itemsNesting_le.mpr fun d member => ?_)
    obtain ⟨f, _, rfl⟩ := List.mem_map.mp member
    cases found : ms.lookup f.1 with
    | none => exact Nat.zero_le _
    | some d => exact Doc.nesting_le_members (mem_of_lookup found)
  | @member key s r ms i d d' field old edit ih =>
    refine Nat.succ_le_succ (Doc.membersNesting_le.mpr fun m member => ?_)
    rcases List.mem_or_eq_of_mem_set member with other | rfl
    · exact Doc.nesting_le_members other
    · exact Nat.le_trans ih (Doc.nesting_le_members (List.mem_of_getElem? old))
  | element field old edit ih | item old edit ih =>
    refine Nat.succ_le_succ (Doc.itemsNesting_le.mpr fun d member => ?_)
    rcases List.mem_or_eq_of_mem_set member with other | rfl
    · exact Doc.nesting_le_items other
    · exact Nat.le_trans ih (Doc.nesting_le_items (List.mem_of_getElem? old))
  | payload found edit ih =>
    simpa [Doc.nesting, Doc.membersNesting, Doc.memberNesting] using ih

theorem denotes_absent {v : s.Content} (absent : s.absent? = some v) : Denotes s .null v := by
  cases s <;> cases absent
  · exact .unplaced
  · exact .noLabel

theorem Row.entry_at {fields : Fields} (row : Row fields) {i : Nat}
    (field : fields[i]? = some (key, s)) :
    ∃ v, (Row.entries fields row)[i]? = some ⟨key, s, v⟩ := by
  induction fields generalizing i with
  | nil => cases field
  | cons field' fields ih =>
    cases i with
    | zero =>
      cases field
      exact ⟨row.1, rfl⟩
    | succ i => exact ih row.2 field

theorem Row.entry_of_field {fields : Fields} (row : Row fields) (field : (key, s) ∈ fields) :
    ∃ v, (⟨key, s, v⟩ : Entry) ∈ Row.entries fields row := by
  obtain ⟨i, found⟩ := List.mem_iff_getElem?.mp field
  obtain ⟨v, entry⟩ := Row.entry_at row found
  exact ⟨v, List.mem_of_getElem? entry⟩

theorem Denotes.perm (means : Denotes (.record r) (.object ms) v) (perm : ms.Perm ns) :
    Denotes (.record r) (.object ns) v := by
  cases means with
  | members once others present value =>
    refine .members ?_ ?_ ?_ ?_
    · exact ((perm.map Prod.fst).pairwise_iff fun differ same => same ▸ differ same.symm).mp once
    · exact fun m member => others m (perm.mem_iff.mpr member)
    · exact fun e member => (present e member).imp_left (perm.map Prod.fst).mem_iff.mp
    · exact fun e member d written => value e member d (perm.mem_iff.mpr written)

theorem Denotes.insert (means : Denotes (.record r) (.object ms) v) (other : key ∉ r.names) :
    Denotes (.record r) (.object ((key, .unread) :: ms)) v := by
  cases means with
  | @members _ _ row once others present value =>
    have unnamed (e : Entry) (inside : e ∈ Row.entries r.fields row) : e.name ≠ key := by
      rintro rfl
      exact other (Row.name_mem inside)
    refine .members ?_ ?_ ?_ ?_
    · exact List.pairwise_cons.mpr ⟨fun l _ _ => other, once⟩
    · rw [List.forall_mem_cons]
      exact ⟨fun _ => rfl, others⟩
    · exact fun e inside => (present e inside).imp_left (List.mem_cons_of_mem key)
    · intro e inside d written
      rcases List.mem_cons.mp written with same | written
      · exact absurd (Prod.mk.inj same).1 (unnamed e inside)
      · exact value e inside d written

theorem Denotes.drop (means : Denotes (.record r) (.object ((key, .null) :: ms)) v)
    (field : (key, s) ∈ r.fields) (optional : s = .pos ∨ s = .label) :
    Denotes (.record r) (.object ms) v := by
  cases means with
  | @members _ _ row once others present value =>
    refine .members once.tail (fun m member => others m (by simp [member])) ?_
      (fun e inside d written => value e inside d (by simp [written]))
    intro e inside
    -- what is dropped was null, and null is what its absence means
    rcases present e inside with named | absent
    · rcases List.mem_cons.mp named with same | named
      · obtain ⟨w, entry⟩ := Row.entry_of_field row field
        obtain rfl := Row.entry_unique r.names_distinct inside entry same
        have null := value _ inside .null (by simp)
        right
        rcases optional with rfl | rfl <;> cases null <;> rfl
      · exact .inl named
    · exact .inr absent

theorem Denotes.array (means : Denotes (.record r) (.object ms) v) :
    Denotes (.record r) (.array (r.fields.map fun f => (ms.lookup f.1).getD .null)) v := by
  cases means with
  | @members _ _ row once others present value =>
    refine .elements (by simp) fun i d e left right => ?_
    rw [List.getElem?_map] at left
    obtain ⟨⟨key, s⟩, field, rfl⟩ := Option.map_eq_some_iff.mp left
    obtain ⟨w, entry⟩ := Row.entry_at row field
    obtain rfl := Option.some.inj (entry.symm.trans right)
    have inside := List.mem_of_getElem? right
    cases found : ms.lookup key with
    | some d => exact value _ inside d (mem_of_lookup found)
    | none => exact denotes_absent ((present _ inside).resolve_left (notMem_of_lookup found))

theorem Denotes.member (means : Denotes (.record r) (.object ms) v) (field : (key, s) ∈ r.fields)
    (old : ms[i]? = some (key, d)) (change : ∀ w, Denotes s d w → Denotes s d' w) :
    Denotes (.record r) (.object (ms.set i (key, d'))) v := by
  have same : (ms.set i (key, d')).map Prod.fst = ms.map Prod.fst := by
    obtain ⟨bound, here⟩ := List.getElem?_eq_some_iff.mp old
    have bound' : i < (ms.map Prod.fst).length := by simpa using bound
    have named : (ms.map Prod.fst)[i] = key := by simp [here]
    rw [List.map_set, ← named, List.set_getElem_self bound']
  cases means with
  | @members _ _ row once others present value =>
    refine .members (same ▸ once) ?_ (fun e inside => same ▸ present e inside) ?_
    · intro m member unknown
      rcases List.mem_or_eq_of_mem_set member with member | rfl
      · exact others m member unknown
      · exact absurd (List.mem_map_of_mem field) unknown
    · intro e inside d'' written
      rcases List.mem_or_eq_of_mem_set written with written | same
      · exact value e inside d'' written
      · obtain ⟨named, rfl⟩ := Prod.mk.inj same
        obtain ⟨w, entry⟩ := Row.entry_of_field row field
        obtain rfl := Row.entry_unique r.names_distinct inside entry named
        exact change w (value _ inside d (List.mem_of_getElem? old))

theorem Denotes.element (means : Denotes (.record r) (.array ds) v)
    (field : r.fields[i]? = some (key, s)) (old : ds[i]? = some d)
    (change : ∀ w, Denotes s d w → Denotes s d' w) :
    Denotes (.record r) (.array (ds.set i d')) v := by
  cases means with
  | @elements _ _ row same each =>
    refine .elements (by simp [same]) fun j d'' e left right => ?_
    rw [List.getElem?_set] at left
    split at left
    · next here =>
      subst here
      obtain ⟨w, entry⟩ := Row.entry_at row field
      obtain rfl := Option.some.inj (entry.symm.trans right)
      split at left
      · cases left
        exact change w (each i d _ old entry)
      · cases left
    · exact each j d'' e left right

theorem Denotes.item {v : (Shape.list s).Content} (means : Denotes (.list s) (.array ds) v)
    (old : ds[i]? = some d) (change : ∀ w, Denotes s d w → Denotes s d' w) :
    Denotes (.list s) (.array (ds.set i d')) v := by
  cases means with
  | list same each =>
    refine .list (by simp [same]) fun j d'' w left right => ?_
    rw [List.getElem?_set] at left
    split at left
    · next here =>
      subst here
      split at left
      · cases left
        exact change w (each i d w old right)
      · cases left
    · exact each j d'' w left right

/-- A changed document stands for the same. -/
theorem Edit.denotes (edit : Edit s d d') (v : s.Content) (means : Denotes s d v) :
    Denotes s d' v := by
  induction edit with
  | permute perm => exact means.perm perm
  | insert other => exact (means.insert other).perm List.perm_middle.symm
  | drop field optional => exact (means.perm List.perm_middle).drop field optional
  | array => exact means.array
  | member field old _ ih => exact means.member field old ih
  | element field old _ ih => exact means.element field old ih
  | item old _ ih => exact means.item old ih
  | payload found _ ih =>
    cases means with
    | tagged found' inside =>
      obtain rfl := Option.some.inj (found.symm.trans found')
      exact .tagged found (ih _ inside)

abbrev Edits (s : Shape) : Doc → Doc → Prop := Relation.ReflTransGen (Edit s)

theorem Edits.nesting_le (edits : Edits s d d') : d'.nesting ≤ d.nesting := by
  induction edits with
  | refl => exact Nat.le_refl _
  | tail _ edit ih => exact Nat.le_trans edit.nesting_le ih

theorem Edits.denotes (edits : Edits s d d') {v : s.Content} (means : Denotes s d v) :
    Denotes s d' v := by
  induction edits with
  | refl => exact means
  | tail _ edit ih => exact edit.denotes v ih

/-- However the members of its records are laid out, a file is read back from its document. -/
theorem fromJson_of_edits (f : File) (shallow : f.json.nesting ≤ 127) (d : Doc)
    (edits : Edits (.record .file) f.json.doc d) (before text after : List Char)
    (blank : Blank before) (spells : Spells d text after) (blank' : Blank after) :
    File.fromJson (String.ofList (before ++ text)) = .ok f := by
  have fits : Shape.Fits (.record .file) f := ⟨(f.name, f.body, f.comments, ()), rfl⟩
  have means := edits.denotes (denotes_json (.record .file) f fits)
  rw [← nesting_doc] at shallow
  have limit : d.nesting ≤ depthLimit := Nat.le_trans edits.nesting_le shallow
  have outcome := (readAll_spelled means blank spells blank').1 limit
  simp only [File.fromJson, fromText, String.toList_ofList, outcome]
  rfl

/-- A file with two comments, the first of them without a position. -/
def remarks : File := ⟨"f", [], [[⟨.unplaced, "//"⟩, ⟨.ofOffset 7, "#"⟩]]⟩

def remarksDoc (comments : List Doc) : Doc :=
  .object [("comments", .array [.array comments]), ("name", .string "f"), ("body", .array [])]

theorem edit_remark (old : ds[i]? = some d) (edit : Edit (.record .comment) d d') :
    Edit (.record .file) (remarksDoc ds) (remarksDoc (ds.set i d')) :=
  .member (r := .file) (i := 0) (s := .list (.list (.record .comment))) (by simp) rfl
    (.item (i := 0) rfl (.item old edit))

/-- The position that is null is dropped, a member without meaning is put in its place, and the
second comment is laid out as an array. -/
def strangeRemarks : Doc :=
  remarksDoc [.object [("x", .unread), ("text", .string "//")], .array [.number 7, .string "#"]]

theorem edits_remarks : Edits (.record .file) remarks.json.doc strangeRemarks := by
  have order : Edit (.record .file) remarks.json.doc (remarksDoc
      [.object [("start", .null), ("text", .string "//")],
        .object [("start", .number 7), ("text", .string "#")]]) :=
    .permute (@List.perm_append_comm _ [("name", Doc.string "f"), ("body", .array [])] _)
  have drop : Edit (.record .comment) (.object ([] ++ ("start", .null) :: [("text", .string "//")]))
      (.object ([] ++ [("text", .string "//")])) := .drop (s := .pos) (by simp) (.inl rfl)
  have insert : Edit (.record .comment) (.object ([] ++ [("text", .string "//")]))
      (.object ([] ++ ("x", .unread) :: [("text", .string "//")])) := .insert (by decide)
  have array : Edit (.record .comment) (.object [("start", .number 7), ("text", .string "#")])
      (.array [.number 7, .string "#"]) := .array
  exact .tail (.tail (.tail (.single order) (edit_remark (i := 0) rfl drop))
    (edit_remark (i := 0) rfl insert)) (edit_remark (i := 1) rfl array)

def strangeText : String :=
  "\x7b\"comments\":[[\x7b\"x\":\x7b\"start\":1\x7d,\"text\":\"//\"\x7d,[7,\"#\"]]]," ++
    "\"name\":\"f\",\"body\":[]\x7d"

theorem fromJson_strangeRemarks : Edits (.record .file) remarks.json.doc strangeRemarks ∧
    Spells strangeRemarks strangeText.toList [] ∧ File.fromJson strangeText = .ok remarks := by
  have spells := spells_print .compact (strangeRemarks.filled (.object [("start", .number 1)])) 0 []
    (by simp [EndsNumber])
  have written : print .compact 0 (strangeRemarks.filled (.object [("start", .number 1)])) [] =
      strangeText.toList := by decide +kernel
  rw [written] at spells
  have filled := spells_filled _ spells
  have read := fromJson_of_edits remarks (by decide) _ edits_remarks [] _ [] Blank.nil filled
    Blank.nil
  rw [List.nil_append, String.ofList_toList] at read
  exact ⟨edits_remarks, filled, read⟩

end River.Exchange
