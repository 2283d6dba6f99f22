import Unparse.Proofs.Walk.Declarations

/-! # Traversals of negated conditions

The traversal of a condition does not see on which side of a comparison or a
connective it is, nor what is inverted. So the code of a negated condition is the
negated code of the condition, and the traversals of both are one.
-/

namespace Unparse

variable {κ : Type}

namespace Expr

/-- A negation is resolved to the negation of the code. -/
theorem resolve_negate (c : Context κ) (e : Expr VariableId κ) :
    e.negate.resolve c = negate <$> e.resolve c := by
  induction e using Expr.induct with
  | const value => cases value <;> rfl
  | unary op e => cases op <;> simp [negate, resolve]
  | binary op l r ihl ihr =>
    cases op <;> simp [negate, BinaryOp.negated?, resolve, ihl, ihr]
  | call receiver checked function args =>
    simp only [negate, resolve]
    split <;> simp [negate]
  | createArray element dimensions initializer => cases initializer <;> simp [negate, resolve]
  | compound op target amount =>
    simp only [negate, resolve]
    split <;> simp [negate]
  | anonymous cls args =>
    simp only [negate, resolve]
    split <;> simp [negate]
  | _ => simp [negate, resolve]

theorem visits_negate (e : ExprCode) : e.negate.visits = e.visits := by
  induction e using Expr.induct with
  | const value => cases value <;> rfl
  | unary op e => cases op <;> simp only [negate, visits]
  | binary op l r ihl ihr => cases op <;> simp only [negate, BinaryOp.negated?, visits, ihl, ihr]
  | _ => simp only [negate, visits]

end Expr

namespace Walking

variable {α β : Type}

theorem run_map (f : α → β) (w : Walking α) (sc : Scope) :
    (f <$> w).run.run sc = ((w.run.run sc).1.map f, (w.run.run sc).2) := by
  rw [ExceptT.run_map]
  rfl

end Walking

variable {s : Style} {view : κ → ClassText} {b : Body κ}

theorem Request.print_expression (e : Expr VariableId κ) :
    (expression e).print s view b = Expr.doc s <$> e.resolve (s.context view b) := by
  rw [Request.print, map_eq_pure_bind]

theorem Expr.history_of_resolve {c : Context κ} {e : Expr VariableId κ} {sc sc' : Scope}
    {code : ExprCode} (h : (e.resolve c).run.run sc = (.ok code, sc')) :
    sc'.history = sc.history ++ code.visits := by
  have hresolves := resolves_expr (c := c) (A := fun _ => True) (e := e) fun _ _ => trivial
  obtain ⟨vs, -, hpath, hvs⟩ := (hresolves sc).result h
  rw [hpath.history, hvs]

/-- From any scope, printing a condition and printing its negation both succeed or
fail with one error, and they leave one scope: the same variables are declared and
the same constructions visited. The guard in front of a body is the negated code.
The variables in a condition and in its negation are the same occurrences in the
same order, so both write the same declarations. -/
theorem negation_printed_alike (s : Style) (view : κ → ClassText) (b : Body κ)
    (e : Expr VariableId κ) (sc : Scope) :
    ∃ (result : Except PrintError ExprCode) (sc' : Scope),
      ((Request.expression e).print s view b).run.run sc = (result.map (Expr.doc s), sc') ∧
      ((Request.expression e.negate).print s view b).run.run sc =
        (result.map fun code => code.negate.doc s, sc') ∧
      ((s.context view b).guard e).run.run sc = (result.map Expr.negate, sc') ∧
      ∀ code, result = .ok code →
        sc'.history = sc.history ++ code.visits ∧ code.negate.visits = code.visits := by
  refine ⟨((e.resolve (s.context view b)).run.run sc).1,
    ((e.resolve (s.context view b)).run.run sc).2, ?_, ?_, ?_, ?_⟩
  · rw [Request.print_expression, Walking.run_map]
  · rw [Request.print_expression, Expr.resolve_negate, Functor.map_map, Walking.run_map]
  · rw [Context.guard, Expr.resolve_negate, Walking.run_map]
  · intro code hcode
    exact ⟨Expr.history_of_resolve (Prod.ext hcode rfl), code.visits_negate⟩

end Unparse
