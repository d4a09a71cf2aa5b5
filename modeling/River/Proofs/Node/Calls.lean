import River.Proofs.Node.Places

/-! What a walk does with a visitor that has a state and may fail: it calls the visitor on the nodes
of a list, one after the other. -/
namespace River.Node

variable {ε σ : Type u}

/-- What is done from a state: the outcome, and the state that it leaves, also when it fails. -/
def outcome (action : ExceptT ε (StateM σ) PUnit) (s : σ) : Except ε PUnit × σ :=
  (action.run.run s).run

/-- Calls a visitor on one node after the other, each time in the state that the calls before have
left. The first failure is the outcome of the whole, and nothing is called after it. -/
def callEach (call : Node → σ → Except ε PUnit × σ) : List Node → σ → Except ε PUnit × σ
  | [], s => (.ok ⟨⟩, s)
  | c :: nodes, s =>
    match call c s with
    | (.ok _, s) => callEach call nodes s
    | (.error e, s) => (.error e, s)

theorem outcome_bind (first next : ExceptT ε (StateM σ) PUnit) (s : σ) :
    outcome (first >>= fun _ => next) s =
      match outcome first s with
      | (.ok _, s) => outcome next s
      | (.error e, s) => (.error e, s) := by
  rw [outcome, ExceptT.run_bind, StateT.run_bind, Id.run_bind, ← outcome]
  obtain ⟨result, left⟩ := outcome first s
  cases result <;> rfl

theorem outcome_forM (visit : Node → ExceptT ε (StateM σ) PUnit) (nodes : List Node) (s : σ) :
    outcome (nodes.forM visit) s = callEach (fun c => outcome (visit c)) nodes s := by
  induction nodes generalizing s with
  | nil => rfl
  | cons c nodes ih =>
    rw [List.forM_eq_forM, List.forM_cons, ← List.forM_eq_forM, outcome_bind, callEach]
    obtain ⟨result, left⟩ := outcome (visit c) s
    cases result with
    | error e => rfl
    | ok => exact ih left

/-- Walks call a visitor on the nodes of a tree as the syntax has them, each node once, up to the
first failure. What is found are the nodes that satisfy a predicate, in the order of a walk. -/
theorem walks_call_each (visit : Node → ExceptT ε (StateM σ) PUnit) (s : σ) (p : Node → Bool)
    (n : Node) :
    outcome (n.walk visit) s = callEach (fun c => outcome (visit c)) n.preorder s ∧
    outcome (n.walkPost visit) s = callEach (fun c => outcome (visit c)) n.postorder s ∧
    n.Enumerates n.preorder n.places ∧ n.Enumerates n.postorder n.placesPost ∧
    n.find p = n.preorder.filter p := by
  refine ⟨?_, ?_, enumerates_preorder n, enumerates_postorder n, find_preorder p n⟩
  · rw [walk_preorder, outcome_forM]
  · rw [walkPost_postorder, outcome_forM]

end River.Node
