import Mathlib.Data.List.Forall2
import Unparse.Proofs.Meaning.Rounds

/-! # Larger bounds

A larger bound only lets a run go on. A run that ends within its bound is the same
for every larger one, and a run that is unfinished has taken the first steps of the
run it would be. So what code does without a bound is what it does within all that
are large enough.
-/

namespace Unparse.Execution

variable {σ ρ α β : Type}

/-- A run and one that may make more rounds. They are the same unless the first one is
unfinished. -/
structure Extends (x y : Run σ ρ α) : Prop where
  grows : ∀ log, log.steps <+: (y log).2.steps
  agrees : ∀ log, x log = y log ∨
    (x log).1 = .error .unfinished ∧ (x log).2.steps <+: (y log).2.steps

namespace Extends

variable {x y : Run σ ρ Unit}

theorem refl {x : Run σ ρ α} (h : Meets (fun _ => True) (fun _ => True) x) : Extends x x :=
  ⟨fun log => (h log).1, fun _ => .inl rfl⟩

theorem apply_eq {x y : Run σ ρ α} (h : Extends x y) {log : Log σ ρ}
    (hx : (x log).1 ≠ .error .unfinished) : y log = x log := by
  rcases h.agrees log with heq | ⟨hleft, -⟩
  · exact heq.symm
  · exact absurd hleft hx

theorem meets {x y : Run σ ρ α} (h : Extends x y) :
    Meets (fun _ => True) (fun _ => True) y :=
  fun log => ⟨h.grows log, fun _ _ => trivial, fun _ _ => trivial⟩

theorem done : Extends (pure () : Run σ ρ Unit) (pure ()) :=
  .refl (.pure trivial)

theorem exit (e : Exit ρ) : Extends (throw e : Run σ ρ α) (throw e) :=
  .refl (.throw fun _ _ => trivial)

theorem bind {x y : Run σ ρ α} {f g : α → Run σ ρ β} (h : Extends x y)
    (hf : ∀ a, Extends (f a) (g a)) : Extends (x >>= f) (y >>= g) := by
  have hgrows (log : Log σ ρ) : (y log).2.steps <+: ((y >>= g) log).2.steps := by
    rw [bind_apply]
    rcases y log with ⟨e | a, log'⟩
    · exact List.prefix_refl _
    · exact (hf a).grows log'
  constructor
  · intro log
    exact (h.grows log).trans (hgrows log)
  intro log
  rcases h.agrees log with heq | ⟨hleft, hsteps⟩
  · rw [bind_apply, bind_apply, heq]
    rcases y log with ⟨e | a, log'⟩
    · exact .inl rfl
    · exact (hf a).agrees log'
  · right
    have hsteps' := hsteps.trans (hgrows log)
    rw [bind_apply]
    generalize x log = outcome at hleft hsteps'
    rcases outcome with ⟨e | a, log'⟩
    · exact ⟨congrArg Except.error (Except.error.inj hleft), hsteps'⟩
    · cases hleft

/-- What goes on with the exit of an attempt has to pass on that it is unfinished. -/
theorem attempt {f g : Option (Exit ρ) → Run σ ρ β} (h : Extends x y)
    (hf : ∀ r, Extends (f r) (g r)) (hunfinished : f (some .unfinished) = throw .unfinished) :
    Extends (attempt x >>= f) (attempt y >>= g) := by
  have hgrows (log : Log σ ρ) :
      (y log).2.steps <+: ((Execution.attempt y >>= g) log).2.steps := by
    rw [bind_apply, attempt_apply]
    rcases y log with ⟨e | a, log'⟩
    · exact (hf (some e)).grows log'
    · exact (hf none).grows log'
  constructor
  · intro log
    exact (h.grows log).trans (hgrows log)
  intro log
  rcases h.agrees log with heq | ⟨hleft, hsteps⟩
  · rw [bind_apply, bind_apply, attempt_apply, attempt_apply, heq]
    rcases y log with ⟨e | a, log'⟩
    · exact (hf (some e)).agrees log'
    · exact (hf none).agrees log'
  · right
    have hsteps' := hsteps.trans (hgrows log)
    rw [bind_apply, attempt_apply]
    generalize x log = outcome at hleft hsteps'
    rcases outcome with ⟨e | a, log'⟩
    · cases hleft
      dsimp only
      rw [hunfinished]
      exact ⟨rfl, hsteps'⟩
    · cases hleft

theorem catching {stops : Exit ρ → Bool} (h : Extends x y) (hstops : stops .unfinished = false) :
    Extends (catching stops x) (catching stops y) := by
  refine h.attempt (fun r => ?_) (by simp [hstops])
  cases r with
  | none => exact done
  | some e =>
    dsimp only
    split
    · exact done
    · exact exit e

theorem leaving (label : Option String) (bare : Bool) (h : Extends x y) :
    Extends (leaving label bare x) (leaving label bare y) := h.catching rfl

theorem resuming (label : Option String) (h : Extends x y) :
    Extends (resuming label x) (resuming label y) := h.catching rfl

theorem ensuring {z w : Run σ ρ Unit} (h : Extends x y) (h' : Extends z w) :
    Extends (ensuring x z) (ensuring y w) := by
  refine h.attempt (fun r => ?_) rfl
  cases r with
  | none => exact h'
  | some e =>
    cases e with
    | unfinished => exact exit _
    | _ => exact h'.bind fun _ => exit _

theorem rounds {test : Nat → Run σ ρ Bool} (htest : ∀ k, Extends (test k) (test k))
    (h : Extends x y) {bound bound' : Nat} (hle : bound ≤ bound') (k : Nat) :
    Extends (rounds test x bound k) (rounds test y bound' k) := by
  induction bound generalizing bound' k with
  | zero =>
    have hgrows := Leaves.rounds (fun k => (htest k).meets) h.meets bound' k
    exact ⟨fun log => (hgrows log).1, fun log => .inr ⟨rfl, (hgrows log).1⟩⟩
  | succ bound ih =>
    cases bound' with
    | zero => cases hle
    | succ bound' =>
      apply (htest k).bind
      intro b
      cases b with
      | false => exact done
      | true => exact h.bind fun _ => ih (Nat.le_of_succ_le_succ hle) (k + 1)

theorem forM {xs ys : List (Run σ ρ Unit)} (h : List.Forall₂ Extends xs ys) :
    Extends (xs.forM id) (ys.forM id) := by
  induction h with
  | nil => exact done
  | cons hx _ ih => exact hx.bind fun _ => ih

theorem choice {xs ys : List (Run σ ρ Unit)} (h : List.Forall₂ Extends xs ys) (hz : Extends x y)
    (k : Nat) : Extends (xs[k]?.getD x) (ys[k]?.getD y) := by
  induction h generalizing k with
  | nil => exact hz
  | cons hx _ ih =>
    cases k with
    | zero => exact hx
    | succ k => exact ih k

variable (m : Machine σ ρ)

theorem holds (a : Act ρ) : Extends (m.holds a) (m.holds a) :=
  .refl (meets_holds m a)

theorem act (a : Act ρ) : Extends (m.act a) (m.act a) :=
  .refl (.act m a)

theorem statements (stmts : List StmtCode) : Extends (m.statements stmts) (m.statements stmts) :=
  .refl (Leaves.statements m stmts)

theorem handling {vars : List Occurrence} {xs ys : List (Run σ ρ Unit)} (h : Extends x y)
    (hhandlers : List.Forall₂ Extends xs ys) :
    Extends (m.handling vars xs x) (m.handling vars ys y) := by
  refine h.attempt (fun r => ?_) rfl
  cases r with
  | none => exact done
  | some e =>
    cases e with
    | ended reason =>
      apply (act m _).bind
      intro k
      have hchoice := choice hhandlers (exit (.ended reason)) k
      cases hx : xs[k]? <;> cases hy : ys[k]? <;> simpa [hx, hy] using hchoice
    | _ => exact exit _

theorem jumps (place : Place) : Extends (jumps place : Run σ ρ Unit) (jumps place) :=
  .refl (leaves_jumps place fun _ _ => trivial)

end Extends

/-! ## Code -/

section Code

variable (m : Machine σ ρ) {bound bound' : Nat}

mutual

theorem extends_runElement (hle : bound ≤ bound') (e : Element) :
    Extends (m.runElement bound e) (m.runElement bound' e) := by
  cases e with
  | mk form place =>
    rw [Machine.runElement, Machine.runElement]
    exact (extends_runForm hle place.label form).bind fun _ => .jumps place

theorem extends_runForm (hle : bound ≤ bound') (label : Option String) (form : FormCode) :
    Extends (m.runForm bound label form) (m.runForm bound' label form) := by
  cases form with
  | block stmts => exact .statements m stmts
  | conditional condition whenTrue whenFalse =>
    refine .leaving _ _ ((Extends.holds m _).bind fun b => ?_)
    cases b with
    | true => exact extends_runCode hle whenTrue
    | false => exact extends_runOption hle whenFalse
  | whileLoop condition body =>
    have hround := (extends_runCode hle body).resuming label
    exact .leaving _ _ (hround.rounds (fun _ => .holds m _) hle 0)
  | doLoop condition body =>
    have hround := (extends_runCode hle body).resuming label
    exact .leaving _ _ (hround.bind fun _ => hround.rounds (fun _ => .holds m _) hle 0)
  | countedLoop init condition update body =>
    have hround := ((extends_runCode hle body).resuming label).bind fun _ =>
      Extends.statements m update.toList
    refine (Extends.statements m _).bind fun _ => .leaving _ _ ?_
    exact hround.rounds (fun _ => .holds m _) hle 0
  | forEach vars container body =>
    have hround := (extends_runCode hle body).resuming label
    exact .leaving _ _ (hround.rounds (fun k => .holds m _) hle 0)
  | guarded body handlers cleanup =>
    refine .leaving _ _ (.ensuring ?_ (extends_runOption hle cleanup))
    exact .handling m (extends_runCode hle body) (extends_runHandlers hle handlers)
  | switch selector cases =>
    refine .leaving _ _ ((Extends.act m _).bind fun k => ?_)
    exact .forM (List.forall₂_drop k (extends_runCases hle cases))
  | select selector arms fallback =>
    refine .leaving _ _ ((Extends.act m _).bind fun k => ?_)
    have hchoice := Extends.choice (extends_runArms hle arms) (extends_runOption hle fallback) k
    cases hx : (m.runArms bound arms)[k]? <;> cases hy : (m.runArms bound' arms)[k]? <;>
      simpa [hx, hy] using hchoice

theorem extends_runCode (hle : bound ≤ bound') (code : List Element) :
    Extends (m.runCode bound code) (m.runCode bound' code) := by
  cases code with
  | nil => exact .done
  | cons e es =>
    rw [Machine.runCode, Machine.runCode]
    exact (extends_runElement hle e).bind fun _ => extends_runCode hle es

theorem extends_runOption (hle : bound ≤ bound') (code : Option (List Element)) :
    Extends (m.runOption bound code) (m.runOption bound' code) := by
  cases code with
  | none => exact .done
  | some code => exact extends_runCode hle code

theorem extends_runHandlers (hle : bound ≤ bound') (handlers : List (Occurrence × List Element)) :
    List.Forall₂ Extends (m.runHandlers bound handlers) (m.runHandlers bound' handlers) := by
  cases handlers with
  | nil => exact .nil
  | cons h handlers =>
    cases h with
    | mk v body => exact .cons (extends_runCode hle body) (extends_runHandlers hle handlers)

theorem extends_runCases (hle : bound ≤ bound')
    (cases : List (List (Option Literal) × List Element)) :
    List.Forall₂ Extends (m.runCases bound cases) (m.runCases bound' cases) := by
  cases cases with
  | nil => exact .nil
  | cons h cases =>
    cases h with
    | mk keys body => exact .cons (extends_runCode hle body) (extends_runCases hle cases)

theorem extends_runArms (hle : bound ≤ bound') (arms : List (ExprCode × List Element)) :
    List.Forall₂ Extends (m.runArms bound arms) (m.runArms bound' arms) := by
  cases arms with
  | nil => exact .nil
  | cons h arms =>
    cases h with
    | mk guard body => exact .cons (extends_runCode hle body) (extends_runArms hle arms)

end

/-- A run that ends within its bound is the same within any larger one. -/
theorem runCode_eq_of_le {code : List Element} {log : Log σ ρ} (hle : bound ≤ bound')
    (h : (m.runCode bound code log).1 ≠ .error .unfinished) :
    m.runCode bound' code log = m.runCode bound code log :=
  (extends_runCode m hle code).apply_eq h

/-- Whatever its bound, a run has taken the first steps of a run with a larger one. -/
theorem steps_runCode_of_le (code : List Element) (log : Log σ ρ) (hle : bound ≤ bound') :
    (m.runCode bound code log).2.steps <+: (m.runCode bound' code log).2.steps := by
  rcases (extends_runCode m hle code).agrees log with heq | ⟨-, hsteps⟩
  · simp only [heq, List.prefix_rfl]
  · exact hsteps

end Code

/-! ## Runs without a bound -/

namespace Machine

variable (m : Machine σ ρ) (code code' : Code) (log : Log σ ρ)

/-- A run ends, in the same way within all bounds that are large enough. -/
def Ends (result : Except (Exit ρ) Unit × Log σ ρ) : Prop :=
  result.1 ≠ .error .unfinished ∧ ∃ bound, ∀ bound' ≥ bound, m.runCode bound' code log = result

/-- A run starts with certain steps within all bounds that are large enough. -/
def Takes (steps : List (Act ρ × σ)) : Prop :=
  ∃ bound, ∀ bound' ≥ bound, steps <+: (m.runCode bound' code log).2.steps

/-- Two runs end in the same way, if at all, and take the same steps. -/
structure Alike : Prop where
  ends : ∀ result, m.Ends code log result ↔ m.Ends code' log result
  takes : ∀ steps, m.Takes code log steps ↔ m.Takes code' log steps

variable {m code code' log}

theorem ends_runCode (bound : Nat) (h : (m.runCode bound code log).1 ≠ .error .unfinished) :
    m.Ends code log (m.runCode bound code log) :=
  ⟨h, bound, fun _ hle => runCode_eq_of_le m hle h⟩

theorem takes_runCode (bound : Nat) {steps : List (Act ρ × σ)}
    (h : steps <+: (m.runCode bound code log).2.steps) : m.Takes code log steps :=
  ⟨bound, fun _ hle => h.trans (steps_runCode_of_le m code log hle)⟩

theorem Alike.of_eq (h : ∀ bound, m.runCode bound code log = m.runCode bound code' log) :
    m.Alike code code' log := by
  constructor
  · simp only [Ends, h, implies_true]
  · simp only [Takes, h, implies_true]

end Machine

end Unparse.Execution
