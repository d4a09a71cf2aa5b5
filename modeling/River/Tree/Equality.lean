import River.Tree

/-! Equality of trees is decided by comparing them node for node. -/
namespace River

mutual

def Expr.same : Expr → Expr → Bool
  | .ident a, .ident b => decide (a = b)
  | .literal k p t, .literal k' p' t' => decide (k = k' ∧ p = p' ∧ t = t')
  | .array es l r, .array es' l' r' => sameAll es es' && decide (l = l' ∧ r = r')
  | .object fs l r, .object fs' l' r' => sameFields fs fs' && decide (l = l' ∧ r = r')
  | .access e n, .access e' n' => e.same e' && decide (n = n')
  | .index e i l r, .index e' i' l' r' => e.same e' && i.same i' && decide (l = l' ∧ r = r')
  | .call e es l r, .call e' es' l' r' =>
    e.same e' && sameAll es es' && decide (l = l' ∧ r = r')
  | .unary o p e, .unary o' p' e' => decide (o = o' ∧ p = p') && e.same e'
  | .binary o p a b, .binary o' p' a' b' => decide (o = o' ∧ p = p') && a.same a' && b.same b'
  | .paren e l r, .paren e' l' r' => e.same e' && decide (l = l' ∧ r = r')
  | _, _ => false

def Expr.sameAll : List Expr → List Expr → Bool
  | [], [] => true
  | a :: as, b :: bs => a.same b && sameAll as bs
  | _, _ => false

def Expr.sameFields : List Field → List Field → Bool
  | [], [] => true
  | a :: as, b :: bs => sameField a b && sameFields as bs
  | _, _ => false

def Expr.sameField : Field → Field → Bool
  | ⟨n, q, e⟩, ⟨n', q', e'⟩ => decide (n = n' ∧ q = q') && e.same e'

end

mutual

theorem Expr.same_iff : ∀ a b : Expr, a.same b = true ↔ a = b
  | .ident _, b => by cases b <;> simp [same]
  | .literal .., b => by cases b <;> simp [same]
  | .array es .., b => by cases b <;> simp [same, sameAll_iff es]
  | .object fs .., b => by cases b <;> simp [same, sameFields_iff fs]
  | .access e _, b => by cases b <;> simp [same, same_iff e]
  | .index e i .., b => by cases b <;> simp [same, same_iff e, same_iff i, and_assoc]
  | .call e es .., b => by cases b <;> simp [same, same_iff e, sameAll_iff es, and_assoc]
  | .unary _ _ e, b => by cases b <;> simp [same, same_iff e, and_assoc]
  | .binary _ _ l r, b => by cases b <;> simp [same, same_iff l, same_iff r, and_assoc]
  | .paren e .., b => by cases b <;> simp [same, same_iff e]

theorem Expr.sameAll_iff : ∀ as bs : List Expr, Expr.sameAll as bs = true ↔ as = bs
  | [], bs => by cases bs <;> simp [sameAll]
  | a :: as, bs => by cases bs <;> simp [sameAll, same_iff a, sameAll_iff as]

theorem Expr.sameFields_iff : ∀ as bs : List Field, Expr.sameFields as bs = true ↔ as = bs
  | [], bs => by cases bs <;> simp [sameFields]
  | a :: as, bs => by cases bs <;> simp [sameFields, sameField_iff a, sameFields_iff as]

theorem Expr.sameField_iff : ∀ a b : Field, Expr.sameField a b = true ↔ a = b
  | ⟨_, _, e⟩, ⟨_, _, _⟩ => by simp [sameField, same_iff e, and_assoc]

end

instance : DecidableEq Expr := fun a b => decidable_of_iff _ (Expr.same_iff a b)
instance : DecidableEq Field := fun a b => decidable_of_iff _ (Expr.sameField_iff a b)

mutual

def Stmt.same : Stmt → Stmt → Bool
  | .attribute n e, .attribute n' e' => decide (n = n' ∧ e = e')
  | .block n p t ss l r, .block n' p' t' ss' l' r' =>
    decide (n = n' ∧ p = p' ∧ t = t') && sameAll ss ss' && decide (l = l' ∧ r = r')
  | _, _ => false

def Stmt.sameAll : List Stmt → List Stmt → Bool
  | [], [] => true
  | a :: as, b :: bs => a.same b && sameAll as bs
  | _, _ => false

end

mutual

theorem Stmt.same_iff : ∀ a b : Stmt, a.same b = true ↔ a = b
  | .attribute .., b => by cases b <;> simp [same]
  | .block _ _ _ ss _ _, b => by cases b <;> simp [same, sameAll_iff ss, and_assoc]

theorem Stmt.sameAll_iff : ∀ as bs : List Stmt, Stmt.sameAll as bs = true ↔ as = bs
  | [], bs => by cases bs <;> simp [sameAll]
  | a :: as, bs => by cases bs <;> simp [sameAll, same_iff a, sameAll_iff as]

end

instance : DecidableEq Stmt := fun a b => decidable_of_iff _ (Stmt.same_iff a b)

deriving instance DecidableEq for File

end River
