import Unparse.Code.Basic

/-! # Running code

A machine says what statements do and how conditions and choices are answered;
code says in which order it is asked. Every question to the machine is a step,
and a run keeps the steps it has taken, each with the state before it. Jumps,
returns and exceptions leave code before its end.

A loop makes as many rounds as it is allowed to, and a run that would need more
is unfinished. Two programs agree if they agree for every bound, so they take
the same steps even if they run forever.
-/

namespace Unparse.Execution

/-- Why code is left before its end. A reason is a value that is returned or
thrown. -/
inductive Exit (ρ : Type) where
  | breaks (j : Jump)
  | continues (j : Jump)
  | ended (reason : ρ)
  | unfinished
deriving DecidableEq

/-- What a machine is asked to do. The answer is a number: whether a condition
holds, whether a container has an element of this number and has bound it to the
variables, or which handler, case or arm is taken. -/
inductive Act (ρ : Type) where
  | statement (stmt : StmtCode)
  | test (condition : ExprCode)
  | element (vars : List Occurrence) (container : ExprCode) (number : Nat)
  | handler (vars : List Occurrence) (reason : ρ)
  | case (selector : ExprCode) (keys : List (List (Option Literal)))
  | arm (selector : ExprCode) (guards : List ExprCode)

structure Machine (σ ρ : Type) where
  perform : Act ρ → σ → Except ρ Nat × σ
  /-- Whether a `break` without a label leaves a `switch` or pattern match. -/
  leavesChoice : Bool

/-- The state a run has reached, and the steps it has taken. -/
structure Log (σ ρ : Type) where
  state : σ
  steps : List (Act ρ × σ)

/-- Runs, which keep their log when they are left. -/
abbrev Run (σ ρ α : Type) := ExceptT (Exit ρ) (StateM (Log σ ρ)) α

variable {σ ρ α : Type}

def attempt (x : Run σ ρ Unit) : Run σ ρ (Option (Exit ρ)) :=
  ExceptT.mk fun log =>
    match x log with
    | (.ok _, log) => (.ok none, log)
    | (.error e, log) => (.ok (some e), log)

/-- Go on behind code that is left by one of these exits. -/
def catching (stops : Exit ρ → Bool) (x : Run σ ρ Unit) : Run σ ρ Unit := do
  match ← attempt x with
  | some e => if stops e then return () else throw e
  | none => return ()

/-- Whether a jump is aimed at a construction with this label. A jump without a
label is aimed at it if it takes bare jumps. -/
def aimedAt (label : Option String) (bare : Bool) (j : Jump) : Bool :=
  match j.label with
  | some name => label == some name
  | none => bare

def isBreak (aimed : Jump → Bool) : Exit ρ → Bool
  | .breaks j => aimed j
  | _ => false

def isContinue (aimed : Jump → Bool) : Exit ρ → Bool
  | .continues j => aimed j
  | _ => false

def leaving (label : Option String) (bare : Bool) : Run σ ρ Unit → Run σ ρ Unit :=
  catching (isBreak (aimedAt label bare))

def resuming (label : Option String) : Run σ ρ Unit → Run σ ρ Unit :=
  catching (isContinue (aimedAt label true))

/-- Make rounds as long as the test says so, numbered from `k`. -/
def rounds (test : Nat → Run σ ρ Bool) (round : Run σ ρ Unit) : (bound k : Nat) → Run σ ρ Unit
  | 0, _ => throw .unfinished
  | bound + 1, k => do
    if ← test k then
      round
      rounds test round bound (k + 1)

/-- Code that other code is run behind, however it is left. -/
def ensuring (x cleanup : Run σ ρ Unit) : Run σ ρ Unit := do
  match ← attempt x with
  | some .unfinished => throw .unfinished
  | some e =>
    cleanup
    throw e
  | none => cleanup

def jumps (place : Place) : Run σ ρ Unit := do
  match place.breakTo with
  | some j => throw (.breaks j)
  | none =>
    match place.continueTo with
    | some j => throw (.continues j)
    | none => return ()

namespace Machine

variable (m : Machine σ ρ)

def act (a : Act ρ) : Run σ ρ Nat :=
  ExceptT.mk fun log =>
    let (answer, state) := m.perform a log.state
    (answer.mapError .ended, ⟨state, log.steps ++ [(a, log.state)]⟩)

def holds (a : Act ρ) : Run σ ρ Bool := do return (← m.act a) != 0

def statement (stmt : StmtCode) : Run σ ρ Unit := do
  if stmt.isSilent then return ()
  else
    let _ ← m.act (.statement stmt)
    return ()

def statements : List StmtCode → Run σ ρ Unit
  | [] => return ()
  | stmt :: stmts => do
    m.statement stmt
    statements stmts

def handling (vars : List Occurrence) (handlers : List (Run σ ρ Unit)) (x : Run σ ρ Unit) :
    Run σ ρ Unit := do
  match ← attempt x with
  | some (.ended reason) =>
    match handlers[← m.act (.handler vars reason)]? with
    | some handler => handler
    | none => throw (.ended reason)
  | some e => throw e
  | none => return ()

variable (bound : Nat)

mutual

def runElement : Element → Run σ ρ Unit
  | .mk form place => do
    runForm place.label form
    jumps place

/-- Run a control structure with a label. Only the bodies of loops take a
`continue`. -/
def runForm (label : Option String) : FormCode → Run σ ρ Unit
  | .block stmts => m.statements stmts
  | .conditional condition whenTrue whenFalse =>
    leaving label false do
      if ← m.holds (.test condition) then runCode whenTrue else runOption whenFalse
  | .whileLoop condition body =>
    leaving label true (rounds (fun _ => m.holds (.test condition))
      (resuming label (runCode body)) bound 0)
  | .doLoop condition body =>
    leaving label true do
      resuming label (runCode body)
      rounds (fun _ => m.holds (.test condition)) (resuming label (runCode body)) bound 0
  | .countedLoop init condition update body => do
    m.statements init.toList
    leaving label true (rounds (fun _ => m.holds (.test condition))
      (do resuming label (runCode body); m.statements update.toList) bound 0)
  | .forEach vars container body =>
    leaving label true (rounds (fun k => m.holds (.element vars container k))
      (resuming label (runCode body)) bound 0)
  | .guarded body handlers cleanup =>
    leaving label false (ensuring
      (m.handling (handlers.map Prod.fst) (runHandlers handlers) (runCode body))
      (runOption cleanup))
  | .switch selector cases =>
    leaving label m.leavesChoice do
      let k ← m.act (.case selector (cases.map Prod.fst))
      ((runCases cases).drop k).forM id
  | .select selector arms fallback =>
    leaving label m.leavesChoice do
      match (runArms arms)[← m.act (.arm selector (arms.map Prod.fst))]? with
      | some arm => arm
      | none => runOption fallback

def runCode : List Element → Run σ ρ Unit
  | [] => return ()
  | e :: es => do
    runElement e
    runCode es

def runOption : Option (List Element) → Run σ ρ Unit
  | none => return ()
  | some code => runCode code

def runHandlers : List (Occurrence × List Element) → List (Run σ ρ Unit)
  | [] => []
  | (_, body) :: handlers => runCode body :: runHandlers handlers

def runCases : List (List (Option Literal) × List Element) → List (Run σ ρ Unit)
  | [] => []
  | (_, body) :: cases => runCode body :: runCases cases

def runArms : List (ExprCode × List Element) → List (Run σ ρ Unit)
  | [] => []
  | (_, body) :: arms => runCode body :: runArms arms

end

end Machine

end Unparse.Execution
