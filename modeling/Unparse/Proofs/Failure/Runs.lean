import Unparse.Proofs.Failure.Results
import Unparse.Proofs.Walk.Meets

/-! # Runs and their logs

Printing reports events and never looks at them. A run is what it does whatever
was reported before: its result, the state at the end, and the events that it
appends, its log.
-/

namespace Unparse

open Walking (report record declare visit outside alone)

/-- A state that holds the events reported so far. -/
class Reporting (σ : Type) where
  reported : σ → List Event → σ

export Reporting (reported)

instance : Reporting (List Event) := ⟨fun _ events => events⟩

instance : Reporting Scope := ⟨fun s events => { s with events }⟩

variable {σ α β γ : Type} [Reporting σ]

/-- Whatever was reported before, a computation from a state ends with a result
and a state, and appends a log. -/
def Runs (s : σ) (w : ExceptT PrintError (StateM σ) α) (r : Except PrintError α) (s' : σ)
    (log : List Event) : Prop :=
  ∀ events, w.run.run (reported s events) = (r, reported s' (events ++ log))

/-- A computation with a run from every state. A result satisfies a condition
together with the log. -/
def Logs (w : ExceptT PrintError (StateM σ) α) (P : α → List Event → Prop) : Prop :=
  ∀ s, ∃ r s' log, Runs s w r s' log ∧ ∀ a, r = .ok a → P a log

variable {s s' s'' : σ} {w : ExceptT PrintError (StateM σ) α}
  {f : α → ExceptT PrintError (StateM σ) β} {a : α} {e : PrintError}
  {r : Except PrintError α} {log log' : List Event}

theorem runs_pure (s : σ) (a : α) :
    Runs s (pure a : ExceptT PrintError (StateM σ) α) (.ok a) s [] := by
  intro events
  rw [List.append_nil]
  rfl

theorem runs_throw (s : σ) (e : PrintError) :
    Runs s (throw e : ExceptT PrintError (StateM σ) α) (.error e) s [] := by
  intro events
  rw [List.append_nil]
  rfl

theorem runs_lift (s : σ) (x : Except PrintError α) :
    Runs s (liftM x : ExceptT PrintError (StateM σ) α) x s [] := by
  cases x with
  | ok a => exact runs_pure s a
  | error e => exact runs_throw s e

namespace Runs

theorem bind {r : Except PrintError β} (h : Runs s w (.ok a) s' log)
    (hf : Runs s' (f a) r s'' log') : Runs s (w >>= f) r s'' (log ++ log') := by
  intro events
  simp only [ExceptT.run_bind, StateT.run_bind, h events]
  rw [← List.append_assoc]
  exact hf (events ++ log)

theorem bind_error (h : Runs s w (.error e) s' log) : Runs s (w >>= f) (.error e) s' log := by
  intro events
  simp only [ExceptT.run_bind, StateT.run_bind, h events]
  rfl

theorem map {g : α → β} (h : Runs s w r s' log) :
    Runs s (do return g (← w)) (r.map g) s' log := by
  cases r with
  | error e => exact h.bind_error
  | ok a =>
    have hbind := h.bind (f := fun a => pure (g a)) (runs_pure s' (g a))
    rwa [List.append_nil] at hbind

theorem caught {handle : PrintError → ExceptT PrintError (StateM σ) α}
    (h : Runs s w (.ok a) s' log) : Runs s (tryCatch w handle) (.ok a) s' log := by
  intro events
  simp only [ExceptT.run_tryCatch, StateT.run_bind, h events]
  rfl

theorem caught_error {handle : PrintError → ExceptT PrintError (StateM σ) α}
    (h : Runs s w (.error e) s' log) (hh : Runs s' (handle e) r s'' log') :
    Runs s (tryCatch w handle) r s'' (log ++ log') := by
  intro events
  simp only [ExceptT.run_tryCatch, StateT.run_bind, h events]
  rw [← List.append_assoc]
  exact hh (events ++ log)

end Runs

namespace Logs

variable {P : α → List Event → Prop} {Q : β → List Event → Prop}

theorem pure (h : P a []) : Logs (Pure.pure a : ExceptT PrintError (StateM σ) α) P := by
  intro s
  refine ⟨_, _, _, runs_pure s a, ?_⟩
  rintro _ ⟨⟩
  exact h

theorem throw (e : PrintError) : Logs (throw e : ExceptT PrintError (StateM σ) α) P := by
  intro s
  exact ⟨_, _, _, runs_throw s e, nofun⟩

theorem lift {x : Except PrintError α} (h : ∀ a, x = .ok a → P a []) :
    Logs (liftM x : ExceptT PrintError (StateM σ) α) P := by
  intro s
  exact ⟨_, _, _, runs_lift s x, h⟩

theorem mono {P' : α → List Event → Prop} (hw : Logs w P) (h : ∀ a log, P a log → P' a log) :
    Logs w P' := by
  intro s
  obtain ⟨r, s', log, hrun, hr⟩ := hw s
  exact ⟨r, s', log, hrun, fun a ha => h a log (hr a ha)⟩

theorem bind (hw : Logs w P) (hf : ∀ a log, P a log → Logs (f a) fun b log' => Q b (log ++ log')) :
    Logs (w >>= f) Q := by
  intro s
  obtain ⟨r, s', log, hrun, hr⟩ := hw s
  cases r with
  | error e => exact ⟨_, _, _, hrun.bind_error, nofun⟩
  | ok a =>
    obtain ⟨r, s'', log', hrun', hr'⟩ := hf a log (hr a rfl) s'
    exact ⟨_, _, _, hrun.bind hrun', hr'⟩

theorem throw_bind (e : PrintError) :
    Logs ((MonadExcept.throw e : ExceptT PrintError (StateM σ) α) >>= f) Q :=
  (Logs.throw (P := fun _ _ => False) e).bind fun _ _ => False.elim

theorem map {g : α → β} (hw : Logs w P) (hg : ∀ a log, P a log → Q (g a) log) :
    Logs (do return g (← w)) Q := by
  refine hw.bind fun a log ha => .pure ?_
  rw [List.append_nil]
  exact hg a log ha

theorem mapM {as : List α} {g : α → ExceptT PrintError (StateM σ) β}
    (h : ∀ a ∈ as, Logs (g a) fun _ _ => True) : Logs (as.mapM g) fun _ _ => True := by
  induction as with
  | nil => exact .pure trivial
  | cons a as ih =>
    rw [List.mapM_cons]
    refine (h a List.mem_cons_self).bind fun b log _ => ?_
    exact (ih fun x hx => h x (List.mem_cons_of_mem a hx)).map fun _ _ _ => trivial

end Logs

section Steps

theorem runs_printing_report (events : List Event) (e : Event) :
    Runs events (Printing.report e) (.ok ()) events [e] := fun _ => rfl

theorem runs_report (s : Scope) (e : Event) : Runs s (report e) (.ok ()) s [e] := fun _ => rfl

theorem runs_record (s : Scope) (v : Visit) :
    Runs s (record v) (.ok ()) { s with history := s.history ++ [v] } [] := by
  intro events
  rw [List.append_nil]
  rfl

theorem runs_declare (s : Scope) (id : VariableId) :
    Runs s (declare id) (.ok (s.declared.insert id).1)
      { s with declared := (s.declared.insert id).2 } [] := by
  intro events
  rw [List.append_nil]
  rfl

theorem runs_visit (s : Scope) (id : ConstructionId) :
    Runs s (visit id) (.ok (s.visited.insert id).1)
      { s with visited := (s.visited.insert id).2 } [] := by
  intro events
  rw [List.append_nil]
  rfl

variable {p : Printing α} {w : Walking α} {x y : List Event} {s : Scope}

theorem runs_outside (h : Runs x p r y log) (s : Scope) : Runs s (outside p) r s log := by
  intro events
  have hp : p.run.run events = (r, events ++ log) := h events
  have hrun : (outside p).run.run (reported s events) =
      ((p.run.run events).1, { s with events := (p.run.run events).2 }) := rfl
  rw [hrun, hp]
  rfl

theorem runs_alone {s' : Scope} (h : Runs {} w r s' log) (x : List Event) :
    Runs x (alone w) r x log := by
  intro events
  have hw : w.run.run { events } = (r, { s' with events := events ++ log }) := h events
  have hrun : (alone w).run.run events =
      ((w.run.run { events }).1, (w.run.run { events }).2.events) := rfl
  change (alone w).run.run events = _
  rw [hrun, hw]
  rfl

theorem Logs.outside {P : α → List Event → Prop} (hp : Logs p P) : Logs (outside p) P := by
  intro s
  obtain ⟨r, y, log, hrun, hr⟩ := hp []
  exact ⟨r, s, log, runs_outside hrun s, hr⟩

theorem Logs.alone {P : α → List Event → Prop} (hw : Logs w P) : Logs (alone w) P := by
  intro x
  obtain ⟨r, s', log, hrun, hr⟩ := hw {}
  exact ⟨r, x, log, runs_alone hrun x, hr⟩

theorem logs_report (e : Event) {P : Unit → List Event → Prop} (h : P () [e]) :
    Logs (report e) P :=
  fun s => ⟨_, _, _, runs_report s e, fun _ _ => h⟩

theorem logs_record (v : Visit) {P : Unit → List Event → Prop} (h : P () []) :
    Logs (record v) P :=
  fun s => ⟨_, _, _, runs_record s v, fun _ _ => h⟩

theorem logs_declare (id : VariableId) {P : Bool → List Event → Prop} (h : ∀ first, P first []) :
    Logs (declare id) P :=
  fun s => ⟨_, _, _, runs_declare s id, fun first _ => h first⟩

theorem logs_visit (id : ConstructionId) {P : Bool → List Event → Prop}
    (h : ∀ first, P first []) : Logs (visit id) P :=
  fun s => ⟨_, _, _, runs_visit s id, fun first _ => h first⟩

/-- The result of printing something alone. -/
def Printing.outcome (p : Printing α) : Except PrintError α := (p.run.run []).1

theorem Runs.result_eq (h : Runs x p r y log) (events : List Event) : (p.run.run events).1 = r :=
  congrArg Prod.fst (h events)

theorem Runs.outcome_eq (h : Runs x p r y log) : p.outcome = r := h.result_eq []

theorem Logs.exists_run {P : α → List Event → Prop} (hp : Logs p P) :
    ∃ log, Runs x p p.outcome x log ∧ ∀ a, p.outcome = .ok a → P a log := by
  obtain ⟨r, y, log, hrun, hr⟩ := hp x
  rw [hrun.outcome_eq]
  exact ⟨log, hrun, hr⟩

variable {f : α → Printing β} {P : α → List Event → Prop} {Q : β → List Event → Prop}

theorem outcome_bind (hp : Logs p P) (hf : ∀ a, Logs (f a) Q) :
    (p >>= f).outcome = p.outcome >>= fun a => (f a).outcome := by
  obtain ⟨log, hrun, -⟩ := hp.exists_run (x := [])
  cases h : p.outcome with
  | error e =>
    rw [h] at hrun
    exact hrun.bind_error.outcome_eq
  | ok a =>
    rw [h] at hrun
    obtain ⟨log', hrun', -⟩ := (hf a).exists_run (x := [])
    exact (hrun.bind hrun').outcome_eq

theorem outcome_map (hp : Logs p P) (g : α → β) :
    (do return g (← p) : Printing β).outcome = p.outcome.map g := by
  obtain ⟨log, hrun, -⟩ := hp.exists_run (x := [])
  exact hrun.map.outcome_eq

theorem outcome_mapM {as : List α} {g : α → Printing β}
    (h : ∀ a ∈ as, Logs (g a) fun _ _ => True) :
    (as.mapM g).outcome = as.mapM fun a => (g a).outcome := by
  induction as with
  | nil => rfl
  | cons a as ih =>
    rw [List.mapM_cons, List.mapM_cons]
    have hrest : Logs (as.mapM g) fun _ _ => True :=
      .mapM fun x hx => h x (List.mem_cons_of_mem a hx)
    rw [outcome_bind (Q := fun _ _ => True) (h a List.mem_cons_self) fun b =>
      hrest.map fun _ _ _ => trivial]
    congr 1
    funext b
    rw [outcome_map hrest, ih fun x hx => h x (List.mem_cons_of_mem a hx)]
    cases as.mapM fun a => (g a).outcome <;> rfl

end Steps

end Unparse
