import Unparse.Code.Resolve

/-! # Unfolding chains

The constructions reachable from a key are unfolded into code, each at most
once. A chain visits one construction at every step into a branch or to a
successor, so the number of constructions bounds the depth of the unfolding.
-/

namespace Unparse

variable {κ : Type}

namespace Context

/-- The condition under which a body runs, given the one that skips it. -/
def guard (c : Context κ) (skip : Expr VariableId κ) : Walking ExprCode :=
  skip.negate.resolve c

def loopVariables (c : Context κ) (ids : List VariableId) : Walking (List Occurrence) := do
  if ids.length = 1 || (2 ≤ ids.length && c.target.lexicon.destructuring) then
    ids.mapM c.bind
  else
    throw (.unsupportedDestructuring ids.length)

/-- The successor of an empty block that is a conditional: an `else` branch
that starts so is written as `else if`. -/
def elseIf? (c : Context κ) (id : ConstructionId) : Except PrintError (Option ConstructionId) := do
  let carrier ← c.body.peek id
  match carrier.next with
  | some next =>
    if carrier.isEmptyBlock then
      let follower ← c.body.peek next
      return if follower.form.isConditional then some next else none
    else return none
  | none => return none

/-- Unfold an `else` branch. The empty block in front of an `else if` is
entered without a report. -/
def elseBranch (c : Context κ) (walk : ConstructionId → Walking Code) (id : ConstructionId) :
    Walking Code := do
  match ← c.elseIf? id with
  | none => walk id
  | some next =>
    let carrier ← c.body.enter id
    return .mk (.block []) carrier.place :: (← walk next)

/-- Unfold a control structure in the order in which its parts are printed.
Without a header for counted loops the condition comes after the body. -/
def unfoldForm (c : Context κ) (walk : ConstructionId → Walking Code) :
    Form VariableId (Expr VariableId κ) (Stmt VariableId κ) ConstructionId → Walking FormCode
  | .block statements => return .block (← statements.mapM (Stmt.resolve c))
  | .conditional skip whenTrue whenFalse =>
    return .conditional (← c.guard skip) (← walk whenTrue)
      (← whenFalse.mapM (c.elseBranch walk))
  | .whileLoop skip body => return .whileLoop (← c.guard skip) (← walk body)
  | .doLoop condition body => do
    let body ← walk body
    return .doLoop (← condition.resolve c) body
  | .countedLoop init skip update body => do
    let init ← init.mapM (Stmt.resolve c)
    if c.target.lexicon.countedLoops then
      let condition ← c.guard skip
      let update ← update.mapM (Stmt.resolve c)
      return .countedLoop init condition update (← walk body)
    else
      let body ← walk body
      let update ← update.mapM (Stmt.resolve c)
      return .countedLoop init (← c.guard skip) update body
  | .forEach vars container body =>
    return .forEach (← c.loopVariables vars) (← container.resolve c) (← walk body)
  | .guarded body handlers cleanup =>
    return .guarded (← walk body)
      (← handlers.mapM fun (id, body) => return (← c.bind id, ← walk body))
      (← cleanup.mapM walk)
  | .switch selector cases => do
    let cases ← cases.mapM fun (keys, body) => return (keys, ← walk body)
    return .switch (← selector.resolve c) cases
  | .select selector arms fallback => do
    let arms ← arms.mapM fun (guard, body) => return (← guard.resolve c, ← walk body)
    let fallback ← fallback.mapM walk
    return .select (← selector.resolve c) arms fallback

/-- Unfold a chain in which at most `depth` constructions are entered one
inside or after another. -/
def unfoldWithin (c : Context κ) : (depth : Nat) → Option ConstructionId → Walking Code
  | _, none => return []
  | 0, some id => do
    let _ ← c.body.enter id
    throw (.revisitedConstruction id)
  | depth + 1, some id => do
    let construction ← c.body.enter id
    Walking.report (.entered id)
    let form ← c.unfoldForm (fun branch => c.unfoldWithin depth (some branch)) construction.form
    return .mk form construction.place :: (← c.unfoldWithin depth construction.next)

def unfold (c : Context κ) (head : Option ConstructionId) : Walking Code :=
  c.unfoldWithin c.body.constructions.size head

end Context

end Unparse
