import Unparse.Code.Unfold
import Unparse.Proofs.Meaning.Negation

/-! # Conditions in normal form

A condition is in normal form if it negates plain expressions only, those that a negation
does not look into. Such conditions, and no others, are their own double negations. A
construction that stores when its body is skipped is therefore printed with the condition
that it was stored for.
-/

namespace Unparse

namespace Expr

variable {ν κ : Type} {e l r : Expr ν κ}

/-- No negation, truth value, comparison, conjunction, disjunction or type test. -/
def isPlain : Expr ν κ → Bool
  | unary .not _ | const (.bool _) | binary .and _ _ | binary .or _ _ | instanceOf _ _ _ => false
  | binary op _ _ => !op.isComparison
  | _ => true

/-- Conditions that negate plain expressions only. -/
inductive IsNormal : Expr ν κ → Prop where
  | plain {e : Expr ν κ} (h : e.isPlain = true) : IsNormal e
  | not {e : Expr ν κ} (h : e.isPlain = true) : IsNormal (unary .not e)
  | bool (b : Bool) : IsNormal (const (.bool b))
  | comparison {op : BinaryOp} (h : op.isComparison = true) (l r : Expr ν κ) :
    IsNormal (binary op l r)
  | instanceOf (e : Expr ν κ) (type : String) (inverted : Bool) :
    IsNormal (instanceOf e type inverted)
  | and {l r : Expr ν κ} (hl : IsNormal l) (hr : IsNormal r) : IsNormal (binary .and l r)
  | or {l r : Expr ν κ} (hl : IsNormal l) (hr : IsNormal r) : IsNormal (binary .or l r)

theorem negate_comparison {op op' : BinaryOp} (h : op.negated? = some op') (l r : Expr ν κ) :
    (binary op l r).negate = binary op' l r := by
  cases op <;> cases h <;> rfl

/-- Exactly the plain expressions are negated by a negation in front of them. -/
theorem negate_eq_not_iff : e.negate = unary .not e ↔ e.isPlain = true := by
  fun_cases negate e with
  | case1 e =>
    refine iff_of_false (fun h => ?_) nofun
    have hsize := congrArg sizeOf h
    simp only [unary.sizeOf_spec] at hsize
    omega
  | case5 op l r _ _ op' hop => simp_all [isPlain, BinaryOp.isComparison]
  | case6 op l r _ _ hop => simp_all [isPlain, BinaryOp.isComparison]
  | _ => simp_all [isPlain]

/-- The double negation of a condition is the condition itself exactly if it is in normal
form. -/
theorem negate_negate_eq_iff : e.negate.negate = e ↔ e.IsNormal := by
  constructor
  · intro h
    induction e using Expr.induct with
    | const value =>
      cases value with
      | bool b => exact .bool b
      | _ => exact .plain rfl
    | unary op e ih =>
      cases op with
      | not => exact .not (negate_eq_not_iff.mp h)
      | _ => exact .plain rfl
    | binary op l r ihl ihr =>
      cases op with
      | and =>
        simp only [negate, binary.injEq, true_and] at h
        exact .and (ihl h.1) (ihr h.2)
      | or =>
        simp only [negate, binary.injEq, true_and] at h
        exact .or (ihl h.1) (ihr h.2)
      | lt | le | gt | ge | eq | ne => exact .comparison rfl l r
      | _ => exact .plain rfl
    | instanceOf e type inverted => exact .instanceOf e type inverted
    | _ => exact .plain rfl
  · intro h
    induction h with
    | plain h => rw [negate_eq_not_iff.mpr h, negate]
    | not h => exact negate_eq_not_iff.mpr h
    | bool b => simp [negate]
    | comparison h l r =>
      obtain ⟨op', hop⟩ := Option.isSome_iff_exists.mp h
      rw [negate_comparison hop, negate_comparison (BinaryOp.negated?_negated? hop)]
    | instanceOf e type inverted => simp [negate]
    | and _ _ ihl ihr | or _ _ ihl ihr => simp [negate, ihl, ihr]

theorem IsNormal.negate (h : e.IsNormal) : e.negate.IsNormal :=
  negate_negate_eq_iff.mp (congrArg Expr.negate (negate_negate_eq_iff.mpr h))

end Expr

variable {κ : Type} {e : Expr VariableId κ}

/-- What is stored for a normal condition is normal and gives the condition back: the guard
of a construction that stores when its body is skipped is printed as the condition itself,
with the same declarations, reports and errors. -/
theorem guard_of_stored (h : e.IsNormal) :
    e.negate.IsNormal ∧ e.negate.negate = e ∧ ∀ c : Context κ, c.guard e.negate = e.resolve c := by
  have hback := Expr.negate_negate_eq_iff.mpr h
  exact ⟨h.negate, hback, fun c => by rw [Context.guard, hback]⟩

def mixedCondition : Expr VariableId Empty :=
  .binary .and (.unary .not (.const (.name "a")))
    (.binary .or (.binary .le (.const (.name "b")) (.const (.name "c")))
      (.instanceOf (.const (.name "d")) "T" false))

theorem guard_of_stored_mixed : mixedCondition.IsNormal ∧
    mixedCondition.negate =
      .binary .or (.const (.name "a"))
        (.binary .and (.binary .gt (.const (.name "b")) (.const (.name "c")))
          (.instanceOf (.const (.name "d")) "T" true)) ∧
    mixedCondition.negate.negate = mixedCondition := by
  have hnormal : mixedCondition.IsNormal :=
    .and (.not rfl) (.or (.comparison rfl _ _) (.instanceOf _ _ _))
  exact ⟨hnormal, rfl, (guard_of_stored hnormal).2.1⟩

end Unparse
