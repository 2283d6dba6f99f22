import Mathlib.Tactic.Common
import Unparse.Code.Unfold

/-! # Specifications of traversals

A traversal meets a specification from a scope if its result and its error,
whichever it ends with, satisfy their conditions together with the scope at
the end. The specification of a sequence is put together from its parts.
-/

namespace Unparse.Walking

variable {α β γ : Type} {s : Scope} {w : Walking α} {f : α → Walking β}
  {Q : α → Scope → Prop} {E : PrintError → Scope → Prop}

/-- From the scope `s` the traversal ends with a result that satisfies `Q`, or
with an error that satisfies `E`. -/
def Meets (s : Scope) (w : Walking α) (Q : α → Scope → Prop) (E : PrintError → Scope → Prop) :
    Prop :=
  match w.run.run s with
  | (.ok a, s') => Q a s'
  | (.error e, s') => E e s'

theorem Meets.result {a : α} {s' : Scope} (h : Meets s w Q E)
    (hw : w.run.run s = (.ok a, s')) : Q a s' := by
  rwa [Meets, hw] at h

theorem Meets.failure {e : PrintError} {s' : Scope} (h : Meets s w Q E)
    (hw : w.run.run s = (.error e, s')) : E e s' := by
  rwa [Meets, hw] at h

theorem Meets.exists_result (h : Meets s w Q fun _ _ => False) :
    ∃ a s', w.run.run s = (.ok a, s') ∧ Q a s' := by
  rcases hrun : w.run.run s with ⟨_ | a, s'⟩
  · exact (h.failure hrun).elim
  · exact ⟨a, s', rfl, h.result hrun⟩

theorem Meets.mono {Q' : α → Scope → Prop} {E' : PrintError → Scope → Prop}
    (h : Meets s w Q E) (hQ : ∀ a s', Q a s' → Q' a s') (hE : ∀ e s', E e s' → E' e s') :
    Meets s w Q' E' := by
  rw [Meets] at h ⊢
  split at h
  · exact hQ _ _ h
  · exact hE _ _ h

@[simp] theorem meets_pure {a : α} : Meets s (pure a) Q E ↔ Q a s := Iff.rfl

@[simp] theorem meets_throw {e : PrintError} : Meets s (throw e : Walking α) Q E ↔ E e s := Iff.rfl

@[simp] theorem meets_bind {Q : β → Scope → Prop} :
    Meets s (w >>= f) Q E ↔ Meets s w (fun a s' => Meets s' (f a) Q E) E := by
  have hrun : (w >>= f).run.run s =
      match w.run.run s with
      | (.ok a, s') => (f a).run.run s'
      | (.error e, s') => (.error e, s') := by
    simp only [ExceptT.run_bind, StateT.run_bind]
    rcases h : w.run.run s with ⟨_ | _, _⟩ <;> rfl
  rw [Meets, Meets, hrun]
  rcases w.run.run s with ⟨_ | _, _⟩ <;> rfl

@[simp] theorem meets_map {g : α → β} {Q : β → Scope → Prop} :
    Meets s (g <$> w) Q E ↔ Meets s w (fun a s' => Q (g a) s') E := by
  rw [map_eq_pure_bind, meets_bind]
  rfl

@[simp] theorem meets_lift {x : Except PrintError α} :
    Meets s (liftM x : Walking α) Q E ↔
      match x with
      | .ok a => Q a s
      | .error e => E e s := by
  cases x <;> rfl

@[simp] theorem meets_report {e : Event} {Q : Unit → Scope → Prop} :
    Meets s (report e) Q E ↔ Q () { s with events := s.events ++ [e] } := Iff.rfl

@[simp] theorem meets_record {v : Visit} {Q : Unit → Scope → Prop} :
    Meets s (record v) Q E ↔ Q () { s with history := s.history ++ [v] } := Iff.rfl

@[simp] theorem meets_declare {id : VariableId} {Q : Bool → Scope → Prop} :
    Meets s (declare id) Q E ↔
      Q (s.declared.insert id).1 { s with declared := (s.declared.insert id).2 } := Iff.rfl

@[simp] theorem meets_visit {id : ConstructionId} {Q : Bool → Scope → Prop} :
    Meets s (visit id) Q E ↔
      Q (s.visited.insert id).1 { s with visited := (s.visited.insert id).2 } := Iff.rfl

theorem meets_outside {p : Printing α} (hQ : ∀ a events, Q a { s with events })
    (hE : ∀ e events, (p.run.run s.events).1 = .error e → E e { s with events }) :
    Meets s (outside p) Q E := by
  have hrun : (outside p).run.run s =
      ((p.run.run s.events).1, { s with events := (p.run.run s.events).2 }) := rfl
  rw [Meets, hrun]
  cases h : (p.run.run s.events).1 with
  | ok a => exact hQ a _
  | error e => exact hE e _ h

@[simp] theorem meets_ite {b : Prop} [Decidable b] {w' : Walking α} :
    Meets s (if b then w else w') Q E ↔ if b then Meets s w Q E else Meets s w' Q E := by
  split <;> rfl

end Unparse.Walking
