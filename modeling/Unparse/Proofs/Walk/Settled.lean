import Unparse.Proofs.Walk.Faults

/-! # Traversals that are repeated

What only reads variables that are declared already declares nothing, so it is written
alike if it is written twice.
-/

namespace Unparse

open Walking

variable {κ α β : Type} {D : KeySet}

def Expr.Declared (b : Body κ) (D : KeySet) (e : Expr VariableId κ) : Prop :=
  ∀ id, .var id ∈ e.nodes b → ∀ v, b.vars.get? id = some v → v.kind = .localVar →
    D.contains id = true

/-- A traversal that declares nothing and ends alike wherever these variables are
declared. -/
def Settled (D : KeySet) (w : Walking α) : Prop :=
  ∃ result : Except PrintError α, ∀ s, s.declared = D →
    Meets s w (fun a s' => result = .ok a ∧ s'.declared = D) fun err _ => result = .error err

namespace Settled

variable {w : Walking α} {f : α → Walking β}

theorem pure {a : α} : Settled D (Pure.pure a : Walking α) := ⟨.ok a, fun _ hs => ⟨rfl, hs⟩⟩

theorem bind (hw : Settled D w) (hf : ∀ a, Settled D (f a)) : Settled D (w >>= f) := by
  obtain ⟨result, hw⟩ := hw
  cases result with
  | error err =>
    refine ⟨.error err, fun s hs => ?_⟩
    rw [meets_bind]
    refine (hw s hs).mono ?_ ?_
    · rintro a s' ⟨h, -⟩
      cases h
    · rintro err' s' h
      cases h
      rfl
  | ok a =>
    obtain ⟨result, hf⟩ := hf a
    refine ⟨result, fun s hs => ?_⟩
    rw [meets_bind]
    refine (hw s hs).mono ?_ ?_
    · rintro a' s' ⟨h, hs'⟩
      cases h
      exact hf s' hs'
    · rintro err s' h
      cases h

theorem map {g : α → β} (hw : Settled D w) : Settled D (do return g (← w)) :=
  hw.bind fun _ => .pure

end Settled

variable {c : Context κ}

theorem settled_use {id : VariableId}
    (h : ∀ v, c.body.vars.get? id = some v → v.kind = .localVar → D.contains id = true) :
    Settled D (c.use id) := by
  cases hv : c.body.vars.get? id with
  | none =>
    rw [Context.use_of_none hv]
    exact ⟨.error (.unknownVariable id), fun _ _ => rfl⟩
  | some v =>
    refine ⟨.ok ⟨id, v.name, v.type, false⟩, ?_⟩
    rintro s rfl
    refine (meets_use_of_declared hv (h v hv)).mono ?_ fun _ _ => False.elim
    rintro _ t ⟨rfl, ht⟩
    exact ⟨rfl, ht⟩

/-- What is pure and declared is written alike whenever it is written. -/
theorem settled_resolve {e : Expr VariableId κ} (hpure : e.isPure = true)
    (h : e.Declared c.body D) : Settled D (e.resolve c) := by
  induction e using Expr.induct with
  | const | staticField => exact .pure
  | var id =>
    rw [Expr.resolve]
    exact (settled_use (h id (by simp [Expr.nodes]))).map
  | field owner name ih =>
    rw [Expr.resolve]
    exact (ih hpure fun id hid => h id (by simp [Expr.nodes, hid])).map
  | length array ih =>
    rw [Expr.resolve]
    exact (ih hpure fun id hid => h id (by simp [Expr.nodes, hid])).map
  | index array position iha ihp =>
    obtain ⟨ha, hp⟩ := Bool.and_eq_true_iff.mp hpure
    rw [Expr.resolve]
    exact (iha ha fun id hid => h id (by simp [Expr.nodes, hid])).bind fun _ =>
      (ihp hp fun id hid => h id (by simp [Expr.nodes, hid])).map
  | _ => cases hpure

end Unparse
