/-! JSON values. Of the numbers only the natural ones are needed: a tree holds no other. -/
namespace River

inductive Json where
  | null
  | bool (b : Bool)
  | number (n : Nat)
  | string (s : String)
  | array (items : List Json)
  | object (members : List (String × Json))

namespace Json

mutual

/-- How deep arrays and objects are nested. -/
def nesting : Json → Nat
  | array items => itemsNesting items + 1
  | object members => membersNesting members + 1
  | _ => 0

def itemsNesting : List Json → Nat
  | [] => 0
  | v :: vs => max v.nesting (itemsNesting vs)

def membersNesting : List (String × Json) → Nat
  | [] => 0
  | m :: ms => max (memberNesting m) (membersNesting ms)

def memberNesting : String × Json → Nat
  | (_, v) => v.nesting

end

end Json
end River
