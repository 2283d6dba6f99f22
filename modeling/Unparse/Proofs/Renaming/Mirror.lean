import Mathlib.Data.List.Forall2
import Mathlib.Tactic.Common
import Unparse.Code.Unfold

/-! # Pairs of runs

Two computations mirror one another if from related states they both succeed or
both fail, with related results or errors, and end in related states.
-/

namespace Unparse

variable {σ σ' α α' β β' : Type}

/-- Both results are there and related, or both errors. -/
inductive Twin (E : PrintError → PrintError → Prop) (P : α → α' → Prop) :
    Except PrintError α → Except PrintError α' → Prop where
  | ok {a : α} {a' : α'} (h : P a a') : Twin E P (.ok a) (.ok a')
  | error {e e' : PrintError} (h : E e e') : Twin E P (.error e) (.error e')

/-- From related states the computations come to related results in related states. -/
def Mirror (E : PrintError → PrintError → Prop) (S : σ → σ' → Prop)
    (w : ExceptT PrintError (StateM σ) α) (w' : ExceptT PrintError (StateM σ') α')
    (P : α → α' → Prop) : Prop :=
  ∀ s s', S s s' → Twin E P (w.run.run s).1 (w'.run.run s').1 ∧
    S (w.run.run s).2 (w'.run.run s').2

variable {E : PrintError → PrintError → Prop} {S : σ → σ' → Prop}
  {w : ExceptT PrintError (StateM σ) α} {w' : ExceptT PrintError (StateM σ') α'}
  {f : α → ExceptT PrintError (StateM σ) β} {f' : α' → ExceptT PrintError (StateM σ') β'}
  {P : α → α' → Prop} {Q : β → β' → Prop} {R : α → α' → Prop}

theorem Twin.mono {P' : α → α' → Prop} {x : Except PrintError α} {x' : Except PrintError α'}
    (hx : Twin E P x x') (h : ∀ a a', P a a' → P' a a') : Twin E P' x x' := by
  cases hx with
  | ok ha => exact .ok (h _ _ ha)
  | error he => exact .error he

theorem Twin.bind {f : α → Except PrintError β} {f' : α' → Except PrintError β'}
    {x : Except PrintError α} {x' : Except PrintError α'} (hx : Twin E P x x')
    (hf : ∀ a a', P a a' → Twin E Q (f a) (f' a')) : Twin E Q (x >>= f) (x' >>= f') := by
  cases hx with
  | ok ha => exact hf _ _ ha
  | error he => exact .error he

theorem rel_ite {γ γ' : Type} {T : γ → γ' → Prop} {c c' : Prop} [Decidable c] [Decidable c']
    {x y : γ} {x' y' : γ'} (hc : c ↔ c') (hx : T x x') (hy : T y y') :
    T (if c then x else y) (if c' then x' else y') := by
  by_cases h : c
  · rw [if_pos h, if_pos (hc.mp h)]
    exact hx
  · rw [if_neg h, if_neg (mt hc.mpr h)]
    exact hy

namespace Mirror

theorem pure {a : α} {a' : α'} (h : P a a') : Mirror E S (Pure.pure a) (Pure.pure a') P :=
  fun _ _ hs => ⟨.ok h, hs⟩

theorem throw {e e' : PrintError} (h : E e e') :
    Mirror E S (MonadExcept.throw e) (MonadExcept.throw e') P :=
  fun _ _ hs => ⟨.error h, hs⟩

theorem lift {x : Except PrintError α} {x' : Except PrintError α'} (h : Twin E P x x') :
    Mirror E S (liftM x) (liftM x') P := by
  cases h with
  | ok h => exact .pure h
  | error h => exact .throw h

theorem mono {P' : α → α' → Prop} (hw : Mirror E S w w' P) (h : ∀ a a', P a a' → P' a a') :
    Mirror E S w w' P' :=
  fun s s' hs => ⟨(hw s s' hs).1.mono h, (hw s s' hs).2⟩

theorem bind (hw : Mirror E S w w' P) (hf : ∀ a a', P a a' → Mirror E S (f a) (f' a') Q) :
    Mirror E S (w >>= f) (w' >>= f') Q := by
  intro s s' hs
  obtain ⟨htwin, hend⟩ := hw s s' hs
  simp only [ExceptT.run_bind, StateT.run_bind]
  rcases hrun : w.run.run s with ⟨r, t⟩
  rcases hrun' : w'.run.run s' with ⟨r', t'⟩
  rw [hrun, hrun'] at htwin hend
  cases htwin with
  | ok ha => exact hf _ _ ha t t' hend
  | error he => exact ⟨.error he, hend⟩

theorem map {g : α → β} {g' : α' → β'} (hw : Mirror E S w w' P)
    (hg : ∀ a a', P a a' → Q (g a) (g' a')) :
    Mirror E S (do return g (← w)) (do return g' (← w')) Q :=
  hw.bind fun a a' ha => .pure (hg a a' ha)

theorem throw_bind {e e' : PrintError} (h : E e e') :
    Mirror E S ((MonadExcept.throw e : ExceptT PrintError (StateM σ) α) >>= f)
      ((MonadExcept.throw e' : ExceptT PrintError (StateM σ') α') >>= f') Q :=
  (Mirror.throw (P := fun _ _ => False) h).bind fun _ _ => False.elim

theorem ite {c c' : Prop} [Decidable c] [Decidable c'] (hc : c ↔ c')
    {v : ExceptT PrintError (StateM σ) α} {v' : ExceptT PrintError (StateM σ') α'}
    (hw : Mirror E S w w' P) (hv : Mirror E S v v' P) :
    Mirror E S (if c then w else v) (if c' then w' else v') P :=
  rel_ite (T := fun w w' => Mirror E S w w' P) hc hw hv

theorem mapM {as : List α} {as' : List α'} (has : List.Forall₂ R as as')
    (h : ∀ a a', R a a' → Mirror E S (f a) (f' a') Q) :
    Mirror E S (as.mapM f) (as'.mapM f') (List.Forall₂ Q) := by
  induction has with
  | nil => exact .pure .nil
  | cons ha _ ih =>
    rw [List.mapM_cons, List.mapM_cons]
    exact (h _ _ ha).bind fun b b' hb => ih.map fun bs bs' hbs => .cons hb hbs

theorem optional {o : Option α} {o' : Option α'} (ho : Option.Rel R o o')
    (h : ∀ a a', R a a' → Mirror E S (f a) (f' a') Q) :
    Mirror E S (o.mapM f) (o'.mapM f') (Option.Rel Q) := by
  cases ho with
  | none => exact .pure .none
  | some ha => exact (h _ _ ha).bind fun b b' hb => .pure (.some hb)

theorem caught {handle : PrintError → ExceptT PrintError (StateM σ) α}
    {handle' : PrintError → ExceptT PrintError (StateM σ') α'} (hw : Mirror E S w w' P)
    (hh : ∀ e e', E e e' → Mirror E S (handle e) (handle' e') P) :
    Mirror E S (tryCatch w handle) (tryCatch w' handle') P := by
  intro s s' hs
  obtain ⟨htwin, hend⟩ := hw s s' hs
  simp only [ExceptT.run_tryCatch, StateT.run_bind]
  rcases hrun : w.run.run s with ⟨r, t⟩
  rcases hrun' : w'.run.run s' with ⟨r', t'⟩
  rw [hrun, hrun'] at htwin hend
  cases htwin with
  | ok ha => exact ⟨.ok ha, hend⟩
  | error he => exact hh _ _ he t t' hend

end Mirror

section Printings

variable {p : Printing α} {p' : Printing α'}

abbrev Printing.Mirror (E : PrintError → PrintError → Prop) (p : Printing α) (p' : Printing α')
    (P : α → α' → Prop) : Prop :=
  Unparse.Mirror E (fun _ _ => True) p p' P

theorem Printing.mirror_report (e e' : Event) :
    Printing.Mirror E (Printing.report e) (Printing.report e') fun _ _ => True :=
  fun _ _ _ => ⟨.ok trivial, trivial⟩

variable {S : Scope → Scope → Prop}

/-- What has a scope of its own leaves related scopes related. -/
theorem mirror_outside (hS : ∀ {s s'} (events events'), S s s' → S { s with events }
    { s' with events := events' }) (h : Printing.Mirror E p p' P) :
    Mirror E S (Walking.outside p) (Walking.outside p') P :=
  fun s s' hs => ⟨(h s.events s'.events trivial).1, hS _ _ hs⟩

theorem mirror_alone {w : Walking α} {w' : Walking α'}
    (hS : ∀ events events', S { events } { events := events' }) (h : Mirror E S w w' P) :
    Printing.Mirror E (Walking.alone w) (Walking.alone w') P :=
  fun events events' _ => ⟨(h { events } { events := events' } (hS events events')).1, trivial⟩

end Printings

end Unparse
