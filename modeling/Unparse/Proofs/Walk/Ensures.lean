import Unparse.Proofs.Walk.Meets
import Unparse.Proofs.Walk.Related

/-! # Results of traversals

Whatever scope it starts from, the result of a traversal may satisfy a condition.
The condition on the code of a control structure is put together from those on the
code of its parts.
-/

namespace Unparse

open Walking

/-- A traversal whose result, if it has one, satisfies a condition. -/
def Ensures {α : Type} (w : Walking α) (P : α → Prop) : Prop :=
  ∀ s, Meets s w (fun a _ => P a) fun _ _ => True

namespace Ensures

variable {α β : Type} {w : Walking α} {P : α → Prop} {Q : β → Prop} {R : α → β → Prop}

theorem trivial (w : Walking α) : Ensures w fun _ => True := by
  intro s
  unfold Meets
  split <;> trivial

theorem pure {a : α} (h : P a) : Ensures (Pure.pure a) P := fun _ => h

theorem throw {e : PrintError} : Ensures (throw e : Walking α) P := fun _ => True.intro

theorem mono {P' : α → Prop} (hw : Ensures w P) (h : ∀ a, P a → P' a) : Ensures w P' :=
  fun s => (hw s).mono (fun a _ ha => h a ha) fun _ _ => id

theorem bind {f : α → Walking β} (hw : Ensures w P) (hf : ∀ a, P a → Ensures (f a) Q) :
    Ensures (w >>= f) Q := by
  intro s
  rw [meets_bind]
  exact (hw s).mono (fun a s' ha => hf a ha s') fun _ _ => id

theorem map {g : α → β} (hw : Ensures w P) (hg : ∀ a, P a → Q (g a)) :
    Ensures (do return g (← w)) Q := hw.bind fun a ha => .pure (hg a ha)

theorem mapM {as : List α} {g : α → Walking β} (h : ∀ a, Ensures (g a) (R a)) :
    Ensures (as.mapM g) (List.Forall₂ R as) := by
  induction as with
  | nil => exact .pure .nil
  | cons a as ih =>
    rw [List.mapM_cons]
    exact (h a).bind fun b hb => ih.map fun bs hbs => .cons hb hbs

theorem optional {o : Option α} {g : α → Walking β} (h : ∀ a, Ensures (g a) (R a)) :
    Ensures (o.mapM g) (Option.Rel R o) := by
  cases o with
  | none => exact .pure .none
  | some a => exact (h a).map (g := some) fun b hb => .some hb

theorem lift {x : Except PrintError α} : Ensures (liftM x) fun a => x = .ok a := by
  intro s
  cases x <;> exact meets_lift.mpr (by trivial)

theorem result (h : Ensures w P) {a : α} {s s' : Scope} (hw : w.run.run s = (.ok a, s')) : P a :=
  (h s).result hw

end Ensures

section Walk

variable {κ : Type} {c : Context κ} {V : VariableId → Occurrence → Prop}
  {E : Expr VariableId κ → ExprCode → Prop} {S : Stmt VariableId κ → StmtCode → Prop}
  {B : ConstructionId → Code → Prop} {walk : ConstructionId → Walking Code}

theorem ensures_enter (b : Body κ) (id : ConstructionId) :
    Ensures (b.enter id) fun construction => b.constructions.get? id = some construction := by
  refine Ensures.lift.bind fun construction hpeek => ?_
  have hget : b.constructions.get? id = some construction := by
    unfold Body.peek at hpeek
    split at hpeek
    · next hc => cases hpeek; exact hc
    · cases hpeek
  refine (Ensures.trivial _).bind fun first _ => ?_
  cases first
  · exact .throw
  · exact (Ensures.trivial _).map fun _ _ => hget

theorem ensures_unfoldForm (hbind : ∀ id, Ensures (c.bind id) (V id))
    (hguard : ∀ skip, Ensures (c.guard skip) (E skip))
    (hexpr : ∀ e, Ensures (e.resolve c) (E e)) (hstmt : ∀ stmt, Ensures (stmt.resolve c) (S stmt))
    (hwalk : ∀ id, Ensures (walk id) (B id)) (helse : ∀ id, Ensures (c.elseBranch walk id) (B id))
    (form : Form VariableId (Expr VariableId κ) (Stmt VariableId κ) ConstructionId) :
    Ensures (c.unfoldForm walk form) (Form.Rel V E S B form) := by
  cases form with
  | block statements => exact (Ensures.mapM hstmt).map fun _ hs => .block hs
  | conditional skip whenTrue whenFalse =>
    exact (hguard skip).bind fun _ he => (hwalk whenTrue).bind fun _ ht =>
      (Ensures.optional helse).map fun _ hf => .conditional he ht hf
  | whileLoop skip body =>
    exact (hguard skip).bind fun _ he => (hwalk body).map fun _ hb => .whileLoop he hb
  | doLoop condition body =>
    exact (hwalk body).bind fun _ hb => (hexpr condition).map fun _ he => .doLoop he hb
  | countedLoop init skip update body =>
    rw [Context.unfoldForm]
    refine (Ensures.optional hstmt).bind fun _ hi => ?_
    split
    · exact (hguard skip).bind fun _ he => (Ensures.optional hstmt).bind fun _ hu =>
        (hwalk body).map fun _ hb => .countedLoop hi he hu hb
    · exact (hwalk body).bind fun _ hb => (Ensures.optional hstmt).bind fun _ hu =>
        (hguard skip).map fun _ he => .countedLoop hi he hu hb
  | forEach vars container body =>
    have hvars : Ensures (c.loopVariables vars) (List.Forall₂ V vars) := by
      unfold Context.loopVariables
      split
      · exact .mapM hbind
      · exact .throw
    exact hvars.bind fun _ hv => (hexpr container).bind fun _ he =>
      (hwalk body).map fun _ hb => .forEach hv he hb
  | guarded body handlers cleanup =>
    have hhandlers : Ensures
        (handlers.mapM fun h => do return (← c.bind h.1, ← walk h.2))
        (List.Forall₂ (fun h h' => V h.1 h'.1 ∧ B h.2 h'.2) handlers) :=
      .mapM fun h => (hbind h.1).bind fun _ hv => (hwalk h.2).map fun _ hb => ⟨hv, hb⟩
    exact (hwalk body).bind fun _ hb => hhandlers.bind fun _ hh =>
      (Ensures.optional hwalk).map fun _ hc => .guarded hb hh hc
  | switch selector cases =>
    have hcases : Ensures
        (cases.mapM fun h => do return (h.1, ← walk h.2))
        (List.Forall₂ (fun c c' => c.1 = c'.1 ∧ B c.2 c'.2) cases) :=
      .mapM fun c => (hwalk c.2).map fun _ hb => ⟨rfl, hb⟩
    exact hcases.bind fun _ hc => (hexpr selector).map fun _ he => .switch he hc
  | select selector arms fallback =>
    have harms : Ensures
        (arms.mapM fun a => do return (← a.1.resolve c, ← walk a.2))
        (List.Forall₂ (fun a a' => E a.1 a'.1 ∧ B a.2 a'.2) arms) :=
      .mapM fun a => (hexpr a.1).bind fun _ he => (hwalk a.2).map fun _ hb => ⟨he, hb⟩
    exact harms.bind fun _ ha => (Ensures.optional hwalk).bind fun _ hf =>
      (hexpr selector).map fun _ he => .select he ha hf

end Walk

end Unparse
