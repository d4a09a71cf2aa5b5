import River.Json.Value

/-! JSON documents for a reader that does not ask for everything in them. What it skips is left
open: it may be anything that is well-formed, to any depth. -/
namespace River

inductive Doc where
  | unread
  | null
  | bool (b : Bool)
  | number (n : Nat)
  | string (s : String)
  | array (items : List Doc)
  | object (members : List (String × Doc))

namespace Doc

mutual

/-- How deep the arrays and objects that are read are nested. -/
def nesting : Doc → Nat
  | array items => itemsNesting items + 1
  | object members => membersNesting members + 1
  | _ => 0

def itemsNesting : List Doc → Nat
  | [] => 0
  | d :: ds => max d.nesting (itemsNesting ds)

def membersNesting : List (String × Doc) → Nat
  | [] => 0
  | m :: ms => max (memberNesting m) (membersNesting ms)

def memberNesting : String × Doc → Nat
  | (_, d) => d.nesting

end

theorem itemsNesting_le {ds : List Doc} :
    itemsNesting ds ≤ depth ↔ ∀ d ∈ ds, d.nesting ≤ depth := by
  induction ds with
  | nil => simp [itemsNesting]
  | cons d ds ih => rw [itemsNesting, Nat.max_le, ih, List.forall_mem_cons]

theorem membersNesting_le {ms : List (String × Doc)} :
    membersNesting ms ≤ depth ↔ ∀ m ∈ ms, m.2.nesting ≤ depth := by
  induction ms with
  | nil => simp [membersNesting]
  | cons m ms ih =>
    obtain ⟨k, d⟩ := m
    rw [membersNesting, memberNesting, Nat.max_le, ih, List.forall_mem_cons]

theorem itemsNesting_append (ds es : List Doc) :
    itemsNesting (ds ++ es) = max (itemsNesting ds) (itemsNesting es) := by
  induction ds with
  | nil => exact (Nat.zero_max _).symm
  | cons d ds ih => rw [List.cons_append, itemsNesting, ih, itemsNesting, Nat.max_assoc]

theorem membersNesting_append (ms ns : List (String × Doc)) :
    membersNesting (ms ++ ns) = max (membersNesting ms) (membersNesting ns) := by
  induction ms with
  | nil => exact (Nat.zero_max _).symm
  | cons m ms ih => rw [List.cons_append, membersNesting, ih, membersNesting, Nat.max_assoc]

theorem nesting_le_items {ds : List Doc} (member : d ∈ ds) : d.nesting ≤ itemsNesting ds :=
  itemsNesting_le.mp (Nat.le_refl _) d member

theorem nesting_le_members {ms : List (String × Doc)} (member : m ∈ ms) :
    m.2.nesting ≤ membersNesting ms :=
  membersNesting_le.mp (Nat.le_refl _) m member

mutual

/-- The value that a document is if `hole` stands wherever nothing is read. -/
def filled (hole : Json) : Doc → Json
  | unread => hole
  | null => .null
  | bool b => .bool b
  | number n => .number n
  | string s => .string s
  | array items => .array (filledItems hole items)
  | object members => .object (filledMembers hole members)

def filledItems (hole : Json) : List Doc → List Json
  | [] => []
  | d :: ds => d.filled hole :: filledItems hole ds

def filledMembers (hole : Json) : List (String × Doc) → List (String × Json)
  | [] => []
  | m :: ms => filledMember hole m :: filledMembers hole ms

def filledMember (hole : Json) : String × Doc → String × Json
  | (k, d) => (k, d.filled hole)

end

end Doc

namespace Json

mutual

/-- A value of which everything is read. -/
def doc : Json → Doc
  | null => .null
  | bool b => .bool b
  | number n => .number n
  | string s => .string s
  | array items => .array (docItems items)
  | object members => .object (docMembers members)

def docItems : List Json → List Doc
  | [] => []
  | v :: vs => v.doc :: docItems vs

def docMembers : List (String × Json) → List (String × Doc)
  | [] => []
  | m :: ms => docMember m :: docMembers ms

def docMember : String × Json → String × Doc
  | (k, v) => (k, v.doc)

end

theorem docItems_eq (vs : List Json) : docItems vs = vs.map doc := by
  induction vs with
  | nil => rfl
  | cons v vs ih => simp [docItems, ih]

theorem docMembers_eq (ms : List (String × Json)) :
    docMembers ms = ms.map fun m => (m.1, m.2.doc) := by
  induction ms with
  | nil => rfl
  | cons m ms ih =>
    obtain ⟨k, v⟩ := m
    simp [docMembers, docMember, ih]

mutual

theorem nesting_doc : ∀ v : Json, v.doc.nesting = v.nesting
  | null | bool _ | number _ | string _ => rfl
  | array vs => congrArg (· + 1) (nesting_docItems vs)
  | object ms => congrArg (· + 1) (nesting_docMembers ms)

theorem nesting_docItems : ∀ vs : List Json, Doc.itemsNesting (docItems vs) = itemsNesting vs
  | [] => rfl
  | v :: vs => by
    rw [docItems, Doc.itemsNesting, itemsNesting, nesting_doc v, nesting_docItems vs]

theorem nesting_docMembers : ∀ ms : List (String × Json),
    Doc.membersNesting (docMembers ms) = membersNesting ms
  | [] => rfl
  | (k, v) :: ms => by
    rw [docMembers, docMember, Doc.membersNesting, membersNesting, nesting_docMembers ms,
      Doc.memberNesting, memberNesting, nesting_doc v]

end

end Json
end River
