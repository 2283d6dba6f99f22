import Unparse.Proofs.Meaning.Execution

/-! # What runs do

A run only adds steps to its log, and a `continue` that it is left by stands in
its code outside every loop that takes it.
-/

namespace Unparse.Execution

variable {σ ρ α β : Type}

/-! ## Runs on a log -/

theorem bind_apply (x : Run σ ρ α) (f : α → Run σ ρ β) (log : Log σ ρ) :
    (x >>= f) log = match x log with
      | (.ok a, log) => f a log
      | (.error e, log) => (.error e, log) := by
  change (match x log with
    | (r, log) => (ExceptT.bindCont f r) log) = _
  rcases x log with ⟨_ | a, log⟩ <;> rfl

theorem attempt_apply (x : Run σ ρ Unit) (log : Log σ ρ) :
    attempt x log = match x log with
      | (.ok _, log) => (.ok none, log)
      | (.error e, log) => (.ok (some e), log) := rfl

theorem catching_apply (stops : Exit ρ → Bool) (x : Run σ ρ Unit) (log : Log σ ρ) :
    catching stops x log = match x log with
      | (.ok _, log) => (.ok (), log)
      | (.error e, log) => (if stops e then .ok () else .error e, log) := by
  rw [catching, bind_apply, attempt_apply]
  rcases x log with ⟨_ | _, log⟩
  · dsimp only
    split <;> rfl
  · rfl

/-! ## What a run establishes -/

/-- A run only adds steps, what it results in meets `ok`, and a `continue` that
it is left by meets `jumps`. -/
def Meets (ok : α → Prop) (jumps : Jump → Prop) (x : Run σ ρ α) : Prop :=
  ∀ log, log.steps <+: (x log).2.steps ∧ (∀ a, (x log).1 = .ok a → ok a) ∧
    ∀ j, (x log).1 = .error (.continues j) → jumps j

namespace Meets

variable {ok : α → Prop} {ok' : β → Prop} {jumps jumps' : Jump → Prop}

theorem pure {a : α} (h : ok a) : Meets ok jumps (Pure.pure a : Run σ ρ α) := by
  intro log
  refine ⟨List.prefix_refl _, ?_, ?_⟩
  · rintro _ ⟨⟩
    exact h
  · rintro _ ⟨⟩

theorem throw {e : Exit ρ} (h : ∀ j, e = .continues j → jumps j) :
    Meets ok jumps (MonadExcept.throw e : Run σ ρ α) := by
  intro log
  refine ⟨List.prefix_refl _, ?_, ?_⟩
  · rintro _ ⟨⟩
  · intro j hj
    exact h j (Except.error.inj hj)

theorem bind {x : Run σ ρ α} {f : α → Run σ ρ β} (h : Meets ok jumps x)
    (hf : ∀ a, ok a → Meets ok' jumps (f a)) : Meets ok' jumps (x >>= f) := by
  intro log
  obtain ⟨hsteps, hok, hjumps⟩ := h log
  rw [bind_apply]
  generalize x log = outcome at hsteps hok hjumps
  rcases outcome with ⟨e | a, log'⟩
  · refine ⟨hsteps, ?_, ?_⟩
    · rintro _ ⟨⟩
    · rintro j ⟨⟩
      exact hjumps j rfl
  · obtain ⟨hsteps', hok', hjumps'⟩ := hf a (hok a rfl) log'
    exact ⟨hsteps.trans hsteps', hok', hjumps'⟩

theorem mono {x : Run σ ρ α} (h : Meets ok jumps x) (hjumps : ∀ j, jumps j → jumps' j) :
    Meets ok jumps' x := by
  intro log
  obtain ⟨hsteps, hok, hjump⟩ := h log
  exact ⟨hsteps, hok, fun j hj => hjumps j (hjump j hj)⟩

theorem act (m : Machine σ ρ) (a : Act ρ) : Meets (fun _ => True) jumps (m.act a) := by
  intro log
  refine ⟨List.prefix_append _ _, fun _ _ => trivial, ?_⟩
  intro j hj
  change (m.perform a log.state).1.mapError Exit.ended = .error (.continues j) at hj
  cases hanswer : (m.perform a log.state).1 <;> rw [hanswer] at hj <;> cases hj

theorem attempt {x : Run σ ρ Unit} {ok : Unit → Prop} (h : Meets ok jumps x) :
    Meets (fun r => ∀ j, r = some (.continues j) → jumps j) jumps' (attempt x) := by
  intro log
  obtain ⟨hsteps, -, hjumps⟩ := h log
  rw [attempt_apply]
  generalize x log = outcome at hsteps hjumps
  rcases outcome with ⟨e | a, log'⟩
  · refine ⟨hsteps, ?_, ?_⟩
    · rintro _ ⟨⟩ j ⟨⟩
      exact hjumps j rfl
    · rintro _ ⟨⟩
  · refine ⟨hsteps, ?_, ?_⟩
    · rintro _ ⟨⟩ j ⟨⟩
    · rintro _ ⟨⟩

end Meets

abbrev Leaves (jumps : Jump → Prop) (x : Run σ ρ Unit) : Prop := Meets (fun _ => True) jumps x

namespace Leaves

variable {jumps jumps' : Jump → Prop} {x y : Run σ ρ Unit}

theorem done : Leaves jumps (pure () : Run σ ρ Unit) := .pure trivial

theorem andThen (h : Leaves jumps x) (h' : Leaves jumps y) :
    Leaves jumps (do x; y) := h.bind fun _ _ => h'

theorem catching {stops : Exit ρ → Bool} (h : Leaves jumps x)
    (hstops : ∀ j, jumps j → stops (.continues j) = false → jumps' j) :
    Leaves jumps' (catching stops x) := by
  apply h.attempt.bind
  intro r hr
  cases r with
  | none => exact done
  | some e =>
    by_cases hstop : stops e = true
    · simp only [hstop, if_true]
      exact done
    · simp only [hstop]
      refine .throw ?_
      rintro j rfl
      exact hstops j (hr j rfl) (by simpa using hstop)

theorem leaving {label : Option String} {bare : Bool} (h : Leaves jumps x) :
    Leaves jumps (leaving label bare x) := h.catching fun _ hj _ => hj

theorem resuming {label : Option String} (h : Leaves jumps x) :
    Leaves (fun j => jumps j ∧ aimedAt label true j = false) (resuming label x) :=
  h.catching fun _ hj hstop => ⟨hj, hstop⟩

theorem rounds {test : Nat → Run σ ρ Bool} (htest : ∀ k, Meets (fun _ => True) jumps (test k))
    (h : Leaves jumps x) (bound k : Nat) : Leaves jumps (rounds test x bound k) := by
  induction bound generalizing k with
  | zero =>
    apply Meets.throw
    rintro _ ⟨⟩
  | succ bound ih =>
    apply (htest k).bind
    rintro b -
    cases b with
    | false => exact done
    | true => exact h.andThen (ih (k + 1))

theorem ensuring (h : Leaves jumps x) (h' : Leaves jumps y) : Leaves jumps (ensuring x y) := by
  apply h.attempt.bind
  intro r hr
  cases r with
  | none => exact h'
  | some e =>
    cases e with
    | unfinished =>
      apply Meets.throw
      rintro _ ⟨⟩
    | breaks j => exact h'.bind fun _ _ => .throw (by rintro _ ⟨⟩)
    | ended reason => exact h'.bind fun _ _ => .throw (by rintro _ ⟨⟩)
    | continues j =>
      refine h'.bind fun _ _ => .throw ?_
      rintro _ ⟨⟩
      exact hr j rfl

variable (m : Machine σ ρ)

theorem statement (stmt : StmtCode) : Leaves jumps (m.statement stmt) := by
  rw [Machine.statement]
  split
  · exact done
  · exact (Meets.act m _).bind fun _ _ => done

theorem statements (stmts : List StmtCode) : Leaves jumps (m.statements stmts) := by
  induction stmts with
  | nil => exact done
  | cons stmt stmts ih => exact (statement m stmt).andThen ih

theorem handling {vars : List Occurrence} {handlers : List (Run σ ρ Unit)} (h : Leaves jumps x)
    (hhandlers : ∀ y ∈ handlers, Leaves jumps y) :
    Leaves jumps (m.handling vars handlers x) := by
  apply h.attempt.bind
  intro r hr
  cases r with
  | none => exact done
  | some e =>
    cases e with
    | ended reason =>
      apply (Meets.act m _).bind
      rintro k -
      cases hk : handlers[k]? with
      | none => exact .throw (by rintro _ ⟨⟩)
      | some y => exact hhandlers y (List.mem_of_getElem? hk)
    | unfinished => exact .throw (by rintro _ ⟨⟩)
    | breaks j => exact .throw (by rintro _ ⟨⟩)
    | continues j =>
      apply Meets.throw
      rintro _ ⟨⟩
      exact hr j rfl

theorem forM {xs : List (Run σ ρ Unit)} (h : ∀ x ∈ xs, Leaves jumps x) :
    Leaves jumps (xs.forM id) := by
  induction xs with
  | nil => exact done
  | cons x xs ih =>
    exact (h x List.mem_cons_self).andThen (ih fun y hy => h y (List.mem_cons_of_mem x hy))

end Leaves

/-! ## Runs of code -/

mutual

/-- The `continue` jumps that leave a construction. -/
def elementContinues : Element → List Jump
  | .mk form place => formContinues place.label form ++ place.continueTo.toList

def formContinues (label : Option String) : FormCode → List Jump
  | .block _ => []
  | .conditional _ whenTrue whenFalse => codeContinues whenTrue ++ optionContinues whenFalse
  | .whileLoop _ body | .doLoop _ body | .countedLoop _ _ _ body | .forEach _ _ body =>
    (codeContinues body).filter fun j => !aimedAt label true j
  | .guarded body handlers cleanup =>
    codeContinues body ++ handlersContinues handlers ++ optionContinues cleanup
  | .switch _ cases => casesContinues cases
  | .select _ arms fallback => armsContinues arms ++ optionContinues fallback

def codeContinues : List Element → List Jump
  | [] => []
  | e :: es => elementContinues e ++ codeContinues es

def optionContinues : Option (List Element) → List Jump
  | none => []
  | some code => codeContinues code

def handlersContinues : List (Occurrence × List Element) → List Jump
  | [] => []
  | (_, body) :: handlers => codeContinues body ++ handlersContinues handlers

def casesContinues : List (List (Option Literal) × List Element) → List Jump
  | [] => []
  | (_, body) :: cases => codeContinues body ++ casesContinues cases

def armsContinues : List (ExprCode × List Element) → List Jump
  | [] => []
  | (_, body) :: arms => codeContinues body ++ armsContinues arms

end

section Code

variable (m : Machine σ ρ) (bound : Nat)

theorem leaves_jumps {js : Jump → Prop} (place : Place)
    (h : ∀ j ∈ place.continueTo, js j) : Leaves js (jumps place : Run σ ρ Unit) := by
  rw [jumps]
  split
  · apply Meets.throw
    rintro _ ⟨⟩
  · split
    · next j hj =>
      apply Meets.throw
      rintro _ ⟨⟩
      exact h j hj
    · exact .done

theorem meets_holds {js : Jump → Prop} (a : Act ρ) : Meets (fun _ => True) js (m.holds a) :=
  (Meets.act m a).bind fun _ _ => .pure trivial

theorem leaves_round {js : List Jump} {label : Option String} {body : Run σ ρ Unit}
    (h : Leaves (· ∈ js) body) :
    Leaves (· ∈ js.filter fun j => !aimedAt label true j) (resuming label body) := by
  refine h.resuming.mono fun j hj => ?_
  simpa using hj

theorem leaves_rounds {js : List Jump} {label : Option String} {act : Nat → Act ρ}
    {body : Run σ ρ Unit} (h : Leaves (· ∈ js) body) (k : Nat) :
    Leaves (· ∈ js.filter fun j => !aimedAt label true j)
      (rounds (fun k => m.holds (act k)) (resuming label body) bound k) :=
  .rounds (fun k => meets_holds m (act k)) (leaves_round h) bound k

mutual

theorem leaves_runElement (e : Element) :
    Leaves (· ∈ elementContinues e) (m.runElement bound e) := by
  cases e with
  | mk form place =>
    rw [Machine.runElement, elementContinues]
    refine .andThen ((leaves_runForm place.label form).mono ?_) (leaves_jumps place ?_)
    · exact fun j hj => List.mem_append_left _ hj
    · exact fun j hj => List.mem_append_right _ (Option.mem_toList.mpr hj)

theorem leaves_runForm (label : Option String) (form : FormCode) :
    Leaves (· ∈ formContinues label form) (m.runForm bound label form) := by
  cases form with
  | block stmts => exact .statements m stmts
  | conditional condition whenTrue whenFalse =>
    refine .leaving ((meets_holds m _).bind fun b _ => ?_)
    cases b with
    | true => exact (leaves_runCode whenTrue).mono fun j hj => List.mem_append_left _ hj
    | false => exact (leaves_runOption whenFalse).mono fun j hj => List.mem_append_right _ hj
  | whileLoop condition body => exact .leaving (leaves_rounds m bound (leaves_runCode body) 0)
  | doLoop condition body =>
    have hrounds : Leaves _ (rounds (fun _ => m.holds (.test condition))
        (resuming label (m.runCode bound body)) bound 0) :=
      leaves_rounds m bound (leaves_runCode body) 0
    exact .leaving (.andThen (leaves_round (leaves_runCode body)) hrounds)
  | countedLoop init condition update body =>
    refine .andThen (.statements m _) (.leaving ?_)
    refine .rounds (fun k => meets_holds m _) (.andThen ?_ (.statements m _)) bound 0
    exact leaves_round (leaves_runCode body)
  | forEach vars container body => exact .leaving (leaves_rounds m bound (leaves_runCode body) 0)
  | guarded body handlers cleanup =>
    refine .leaving (.ensuring (.handling m ((leaves_runCode body).mono ?_) fun x hx => ?_) ?_)
    · intro j hj
      exact List.mem_append_left _ (List.mem_append_left _ hj)
    · refine (leaves_runHandlers handlers x hx).mono fun j hj => ?_
      exact List.mem_append_left _ (List.mem_append_right _ hj)
    · exact (leaves_runOption cleanup).mono fun j hj => List.mem_append_right _ hj
  | switch selector cases =>
    refine .leaving ((Meets.act m _).bind fun k _ => Leaves.forM fun x hx => ?_)
    exact leaves_runCases cases x (List.mem_of_mem_drop hx)
  | select selector arms fallback =>
    refine .leaving ((Meets.act m _).bind fun k _ => ?_)
    cases hk : (m.runArms bound arms)[k]? with
    | none => exact (leaves_runOption fallback).mono fun j hj => List.mem_append_right _ hj
    | some x =>
      refine (leaves_runArms arms x (List.mem_of_getElem? hk)).mono fun j hj => ?_
      exact List.mem_append_left _ hj

theorem leaves_runCode (code : List Element) :
    Leaves (· ∈ codeContinues code) (m.runCode bound code) := by
  cases code with
  | nil => exact .done
  | cons e es =>
    rw [Machine.runCode, codeContinues]
    refine .andThen ((leaves_runElement e).mono ?_) ((leaves_runCode es).mono ?_)
    · exact fun j hj => List.mem_append_left _ hj
    · exact fun j hj => List.mem_append_right _ hj

theorem leaves_runOption (code : Option (List Element)) :
    Leaves (· ∈ optionContinues code) (m.runOption bound code) := by
  cases code with
  | none => exact .done
  | some code => exact leaves_runCode code

theorem leaves_runHandlers (handlers : List (Occurrence × List Element)) :
    ∀ x ∈ m.runHandlers bound handlers, Leaves (· ∈ handlersContinues handlers) x := by
  cases handlers with
  | nil => simp [Machine.runHandlers]
  | cons h handlers =>
    cases h with
    | mk v body =>
      rw [Machine.runHandlers, handlersContinues, List.forall_mem_cons]
      refine ⟨(leaves_runCode body).mono ?_, fun x hx => (leaves_runHandlers handlers x hx).mono ?_⟩
      · exact fun j hj => List.mem_append_left _ hj
      · exact fun j hj => List.mem_append_right _ hj

theorem leaves_runCases (cases : List (List (Option Literal) × List Element)) :
    ∀ x ∈ m.runCases bound cases, Leaves (· ∈ casesContinues cases) x := by
  cases cases with
  | nil => simp [Machine.runCases]
  | cons h cases =>
    cases h with
    | mk keys body =>
      rw [Machine.runCases, casesContinues, List.forall_mem_cons]
      refine ⟨(leaves_runCode body).mono ?_, fun x hx => (leaves_runCases cases x hx).mono ?_⟩
      · exact fun j hj => List.mem_append_left _ hj
      · exact fun j hj => List.mem_append_right _ hj

theorem leaves_runArms (arms : List (ExprCode × List Element)) :
    ∀ x ∈ m.runArms bound arms, Leaves (· ∈ armsContinues arms) x := by
  cases arms with
  | nil => simp [Machine.runArms]
  | cons h arms =>
    cases h with
    | mk guard body =>
      rw [Machine.runArms, armsContinues, List.forall_mem_cons]
      refine ⟨(leaves_runCode body).mono ?_, fun x hx => (leaves_runArms arms x hx).mono ?_⟩
      · exact fun j hj => List.mem_append_left _ hj
      · exact fun j hj => List.mem_append_right _ hj

end

end Code

end Unparse.Execution
