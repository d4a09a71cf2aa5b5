import River.Proofs.Exchange.Layout
import River.Proofs.Exchange.Refused
import River.Proofs.Exchange.Unambiguous

/-! A document that leaves the schema at one place is refused, whatever else is in it and however it
is spelled. -/
namespace River.Exchange

open River.Json

/-- A document of the schema. -/
def Conforms (s : Shape) (d : Doc) : Prop := ∃ v, Denotes s d v

abbrev Choice.names (c : Choice) : List String := c.variants.map (·.name)

/-- A change to a document of a shape that takes it out of the schema. What is put in may be any
document, one that is not read included. -/
inductive Violation : Shape → Doc → Doc → Prop where
  /-- Only a position or a label may be absent. -/
  | missing : (key, s) ∈ r.fields → s ≠ .pos → s ≠ .label →
      Violation (.record r) (.object (ms ++ (key, d) :: ns)) (.object (ms ++ ns))
  | repeated : key ∈ r.names → key ∈ (ms ++ ns).map Prod.fst →
      Violation (.record r) (.object (ms ++ ns)) (.object (ms ++ (key, d) :: ns))
  | tooShort : Violation (.record r) (.array (ds ++ d :: es)) (.array (ds ++ es))
  | tooLong : Violation (.record r) (.array (ds ++ es)) (.array (ds ++ d :: es))
  | nameless : Violation .blockName (.array ds) (.array [])
  | unknownName : name ∉ c.names → Violation (.choice c) (.string old) (.string name)
  | unknownTag : name ∉ c.names →
      Violation (.choice c) (.object [(old, d)]) (.object [(name, d)])
  | untagged : Violation (.choice c) (.object ms) (.object [])
  | secondTag : Violation (.choice c) (.object (ms ++ ns)) (.object (ms ++ m :: ns))

/-- A change at one place, anywhere in what is read. -/
inductive Inside (change : Shape → Doc → Doc → Prop) : Shape → Doc → Doc → Prop where
  | here : change s d d' → Inside change s d d'
  | member : (key, s) ∈ r.fields → ms[i]? = some (key, d) → Inside change s d d' →
      Inside change (.record r) (.object ms) (.object (ms.set i (key, d')))
  | element : r.fields[i]? = some (key, s) → ds[i]? = some d → Inside change s d d' →
      Inside change (.record r) (.array ds) (.array (ds.set i d'))
  | item : ds[i]? = some d → Inside change s d d' →
      Inside change (.list s) (.array ds) (.array (ds.set i d'))
  | payload {variant : Variant c.Content} : c.variants.find? (·.name == name) = some variant →
      Inside change variant.payload d d' →
      Inside change (.choice c) (.object [(name, d)]) (.object [(name, d')])

theorem not_conforms_unread : ¬Conforms s .unread := by
  rintro ⟨v, means⟩
  cases means with
  | blockName parts => cases parts

theorem Conforms.once (conforms : Conforms (.record r) (.object ms)) :
    (ms.map Prod.fst).Pairwise fun k l => k = l → k ∉ r.names := by
  obtain ⟨v, means⟩ := conforms
  cases means with
  | members once => exact once

theorem Conforms.present (conforms : Conforms (.record r) (.object ms))
    (field : (key, s) ∈ r.fields) (required : s.absent? = none) : key ∈ ms.map Prod.fst := by
  obtain ⟨v, means⟩ := conforms
  cases means with
  | @members _ _ row _ _ present _ =>
    obtain ⟨w, entry⟩ := Row.entry_of_field row field
    refine (present _ entry).resolve_right fun absent => ?_
    rw [required] at absent
    cases absent

theorem Conforms.field (conforms : Conforms (.record r) (.object ms))
    (field : (key, s) ∈ r.fields) (member : (key, d) ∈ ms) : Conforms s d := by
  obtain ⟨v, means⟩ := conforms
  cases means with
  | @members _ _ row _ _ _ value =>
    obtain ⟨w, entry⟩ := Row.entry_of_field row field
    exact ⟨w, value _ entry d member⟩

theorem Conforms.length (conforms : Conforms (.record r) (.array ds)) :
    ds.length = r.fields.length := by
  obtain ⟨v, means⟩ := conforms
  cases means with
  | elements same => exact same

theorem Conforms.element (conforms : Conforms (.record r) (.array ds))
    {i : Nat} (field : r.fields[i]? = some (key, s)) (here : ds[i]? = some d) : Conforms s d := by
  obtain ⟨v, means⟩ := conforms
  cases means with
  | @elements _ _ row _ each =>
    obtain ⟨w, entry⟩ := Row.entry_at row field
    exact ⟨w, each i d _ here entry⟩

theorem Conforms.item (conforms : Conforms (.list s) (.array ds)) {i : Nat} (here : ds[i]? = some d) :
    Conforms s d := by
  obtain ⟨v, means⟩ := conforms
  cases means with
  | @list _ _ vs same each =>
    obtain ⟨bound, _⟩ := List.getElem?_eq_some_iff.mp here
    exact ⟨_, each i d _ here (List.getElem?_eq_getElem (same ▸ bound))⟩

theorem Conforms.named (conforms : Conforms .blockName (.array ds)) : ds ≠ [] := by
  rintro rfl
  obtain ⟨v, means⟩ := conforms
  cases means with
  | blockName parts =>
    cases parts with
    | list same => cases same

theorem mem_names {c : Choice} {variant : Variant c.Content}
    (found : c.variants.find? (·.name == name) = some variant) : name ∈ c.names := by
  have named : variant.name = name := by simpa using List.find?_some found
  exact named ▸ List.mem_map_of_mem (List.mem_of_find?_eq_some found)

theorem Conforms.known (conforms : Conforms (.choice c) (.string name)) : name ∈ c.names := by
  obtain ⟨v, means⟩ := conforms
  cases means with
  | bare found => exact mem_names found

theorem Conforms.tag (conforms : Conforms (.choice c) (.object ms)) :
    ∃ name ∈ c.names, ms.map Prod.fst = [name] := by
  obtain ⟨v, means⟩ := conforms
  cases means with
  | tagged found _ => exact ⟨_, mem_names found, rfl⟩

theorem Conforms.payload {variant : Variant c.Content}
    (conforms : Conforms (.choice c) (.object [(name, d)]))
    (found : c.variants.find? (·.name == name) = some variant) : Conforms variant.payload d := by
  obtain ⟨v, means⟩ := conforms
  cases means with
  | tagged found' means =>
    obtain rfl := Option.some.inj (found.symm.trans found')
    exact ⟨_, means⟩

theorem Conforms.agrees_object (conforms : Conforms s e) (agrees : Agrees (.object ms) e) :
    ∃ ns, e = .object ns ∧ ns.map Prod.fst = ms.map Prod.fst ∧
      ∀ (i : Nat) key d, ms[i]? = some (key, d) → ∃ d', ns[i]? = some (key, d') ∧ Agrees d d' := by
  cases agrees with
  | unreadRight => exact absurd conforms not_conforms_unread
  | @object _ ns same each =>
    refine ⟨ns, rfl, same.symm, fun i key d here => ?_⟩
    have named : (ns.map Prod.fst)[i]? = some key := by rw [← same, List.getElem?_map, here]; rfl
    rw [List.getElem?_map] at named
    obtain ⟨⟨key', d'⟩, there, rfl⟩ := Option.map_eq_some_iff.mp named
    exact ⟨d', there, each i _ _ here there⟩

theorem Conforms.agrees_tagged (conforms : Conforms s e) (agrees : Agrees (.object [(name, d)]) e) :
    ∃ d', e = .object [(name, d')] ∧ Agrees d d' := by
  obtain ⟨ns, rfl, names, each⟩ := conforms.agrees_object agrees
  obtain ⟨d', here, same⟩ := each 0 name d rfl
  match ns, names, here with
  | [_], _, rfl => exact ⟨d', rfl, same⟩

theorem Conforms.agrees_array (conforms : Conforms s e) (agrees : Agrees (.array ds) e) :
    ∃ es, e = .array es ∧ es.length = ds.length ∧
      ∀ (i : Nat) d, ds[i]? = some d → ∃ d', es[i]? = some d' ∧ Agrees d d' := by
  cases agrees with
  | unreadRight => exact absurd conforms not_conforms_unread
  | @array _ es same each =>
    refine ⟨es, rfl, same.symm, fun i d here => ?_⟩
    obtain ⟨bound, _⟩ := List.getElem?_eq_some_iff.mp here
    have there := List.getElem?_eq_getElem (same ▸ bound : i < es.length)
    exact ⟨_, there, each i _ _ here there⟩

theorem Conforms.agrees_string (conforms : Conforms s e) (agrees : Agrees (.string name) e) :
    e = .string name := by
  cases agrees with
  | unreadRight => exact absurd conforms not_conforms_unread
  | string => rfl

theorem notMem_of_once {names : List String} (once : (l ++ key :: r).Pairwise fun k l => k = l → k ∉ names)
    (known : key ∈ names) : key ∉ l ++ r := by
  rw [List.pairwise_append, List.pairwise_cons] at once
  intro member
  rcases List.mem_append.mp member with before | after
  · exact once.2.2 key before key List.mem_cons_self rfl known
  · exact once.2.1.1 key after rfl known

/-- The document before and the one after do not both belong to the schema. -/
theorem Violation.not_conforms (change : Violation s d d') (agrees : Agrees d e)
    (agrees' : Agrees d' e') (conforms : Conforms s e) : ¬Conforms s e' := by
  intro conforms'
  cases change with
  | missing field notPos notLabel =>
    obtain ⟨ns, rfl, names, -⟩ := conforms.agrees_object agrees
    obtain ⟨ns', rfl, names', -⟩ := conforms'.agrees_object agrees'
    have once := conforms.once
    rw [names, List.map_append, List.map_cons] at once
    have gone := notMem_of_once once (List.mem_map_of_mem field)
    rw [← List.map_append, ← names'] at gone
    refine gone (conforms'.present field ?_)
    cases ‹Shape› <;> first | rfl | contradiction
  | repeated known present =>
    obtain ⟨ns', rfl, names', -⟩ := conforms'.agrees_object agrees'
    have once := conforms'.once
    rw [names', List.map_append, List.map_cons] at once
    rw [List.map_append] at present
    exact notMem_of_once once known present
  | tooShort | tooLong =>
    obtain ⟨es, rfl, same, -⟩ := conforms.agrees_array agrees
    obtain ⟨es', rfl, same', -⟩ := conforms'.agrees_array agrees'
    have length := conforms.length
    have length' := conforms'.length
    simp only [List.length_append, List.length_cons] at *
    omega
  | nameless =>
    obtain ⟨es', rfl, same', -⟩ := conforms'.agrees_array agrees'
    exact conforms'.named (List.eq_nil_of_length_eq_zero same')
  | unknownName unknown =>
    obtain rfl := conforms'.agrees_string agrees'
    exact unknown conforms'.known
  | unknownTag unknown =>
    obtain ⟨ns', rfl, names', -⟩ := conforms'.agrees_object agrees'
    obtain ⟨name, known, single⟩ := conforms'.tag
    rw [names'] at single
    cases single
    exact unknown known
  | untagged =>
    obtain ⟨ns', rfl, names', -⟩ := conforms'.agrees_object agrees'
    obtain ⟨name, known, single⟩ := conforms'.tag
    rw [names'] at single
    cases single
  | secondTag =>
    obtain ⟨ns, rfl, names, -⟩ := conforms.agrees_object agrees
    obtain ⟨ns', rfl, names', -⟩ := conforms'.agrees_object agrees'
    obtain ⟨name, -, single⟩ := conforms.tag
    obtain ⟨name', -, single'⟩ := conforms'.tag
    have length := congrArg List.length (names.symm.trans single)
    have length' := congrArg List.length (names'.symm.trans single')
    simp only [List.map_append, List.map_cons, List.length_append, List.length_cons,
      List.length_map, List.length_nil] at length length'
    omega

theorem getElem?_set_same {l : List α} {i : Nat} (old : l[i]? = some a) :
    (l.set i b)[i]? = some b :=
  List.getElem?_set_self (List.getElem?_eq_some_iff.mp old).1

theorem Inside.not_conforms (change : Inside Violation s d d') (agrees : Agrees d e)
    (agrees' : Agrees d' e') (conforms : Conforms s e) : ¬Conforms s e' := by
  induction change generalizing e e' with
  | here change => exact change.not_conforms agrees agrees' conforms
  | member field old _ ih =>
    intro conforms'
    obtain ⟨ns, rfl, -, each⟩ := conforms.agrees_object agrees
    obtain ⟨ns', rfl, -, each'⟩ := conforms'.agrees_object agrees'
    obtain ⟨x, here, same⟩ := each _ _ _ old
    obtain ⟨x', here', same'⟩ := each' _ _ _ (getElem?_set_same old)
    exact ih same same' (conforms.field field (List.mem_of_getElem? here))
      (conforms'.field field (List.mem_of_getElem? here'))
  | element field old _ ih =>
    intro conforms'
    obtain ⟨es, rfl, -, each⟩ := conforms.agrees_array agrees
    obtain ⟨es', rfl, -, each'⟩ := conforms'.agrees_array agrees'
    obtain ⟨x, here, same⟩ := each _ _ old
    obtain ⟨x', here', same'⟩ := each' _ _ (getElem?_set_same old)
    exact ih same same' (conforms.element field here) (conforms'.element field here')
  | item old _ ih =>
    intro conforms'
    obtain ⟨es, rfl, -, each⟩ := conforms.agrees_array agrees
    obtain ⟨es', rfl, -, each'⟩ := conforms'.agrees_array agrees'
    obtain ⟨x, here, same⟩ := each _ _ old
    obtain ⟨x', here', same'⟩ := each' _ _ (getElem?_set_same old)
    exact ih same same' (conforms.item here) (conforms'.item here')
  | payload found _ ih =>
    intro conforms'
    obtain ⟨x, rfl, same⟩ := conforms.agrees_tagged agrees
    obtain ⟨x', rfl, same'⟩ := conforms'.agrees_tagged agrees'
    exact ih same same' (conforms.payload found) (conforms'.payload found)

/-- However the changed document is spelled, it is refused. -/
theorem fromJson_of_violation {d d' : Doc} {text text' : String} {f : File}
    (spells : SpellsText d text.toList) (accepted : File.fromJson text = .ok f)
    (change : Inside Violation (.record .file) d d') (spells' : SpellsText d' text'.toList) :
    Refused (File.fromJson text') := by
  apply refused_of_not_read
  intro g accepted'
  obtain ⟨e, spelled, means, -⟩ := fromJson_ok_iff.mp accepted
  obtain ⟨e', spelled', means', -⟩ := fromJson_ok_iff.mp accepted'
  exact change.not_conforms (SpellsText.agrees spells spelled) (SpellsText.agrees spells' spelled') ⟨f, means⟩ ⟨g, means'⟩

/-- A file with one block, and in it an attribute whose value is an array without elements. -/
def emptyArray : File :=
  ⟨"f", [.block ⟨"a", []⟩ .unplaced none
    [.attribute ⟨"b", .unplaced⟩ (.array [] .unplaced .unplaced)] .unplaced .unplaced], []⟩

def emptyArrayJson (tag : String) : Json :=
  .object [("name", .string "f"), ("body", .array [.object [("Block", .object
    [("name", .array [.string "a"]), ("name_pos", .null), ("label", .null),
      ("body", .array [.object [("Attribute", .object
        [("name", .object [("name", .string "b"), ("name_pos", .null)]),
          ("value", .object [(tag, .object
            [("elements", .array []), ("lbrack", .null), ("rbrack", .null)])])])]]),
      ("lcurly", .null), ("rcurly", .null)])]]),
    ("comments", .array [])]

theorem retagged_emptyArray :
    Inside Violation (.record .file) (emptyArrayJson "Array").doc (emptyArrayJson "List").doc :=
  .member (i := 1) (s := Record.stmts) (by simp) rfl (.item (i := 0) rfl (.payload rfl
    (.member (i := 3) (s := Record.stmts) (by simp) rfl (.item (i := 0) rfl (.payload rfl
      (.member (i := 1) (s := Record.expr) (by simp) rfl (.here (.unknownTag (by decide)))))))))

theorem fromJson_retagged : File.fromJson (emptyArrayJson "Array").pretty = .ok emptyArray ∧
    Inside Violation (.record .file) (emptyArrayJson "Array").doc (emptyArrayJson "List").doc ∧
    Refused (File.fromJson (emptyArrayJson "List").pretty) := by
  have accepted : File.fromJson (emptyArrayJson "Array").pretty = .ok emptyArray :=
    fromJson_ok_iff.mpr ⟨emptyArray.json.doc, spells_pretty (emptyArrayJson "Array"),
      denotes_json (.record .file) emptyArray ⟨("f", emptyArray.body, [], ()), rfl⟩, by decide⟩
  exact ⟨accepted, retagged_emptyArray, fromJson_of_violation (spells_pretty _) accepted
    retagged_emptyArray (spells_pretty _)⟩

end River.Exchange
