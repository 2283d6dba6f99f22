import Unparse.Proofs.Walk.Consistent

/-! # Visits of code

The visits to variables that code records, in the order in which they were
made. The order of the parts of a form is that in which they are printed,
except that a choice looks at its selector last.
-/

namespace Unparse

namespace Expr

mutual

def visits : ExprCode → List Visit
  | const _ | staticField _ _ => []
  | var v => [.use v]
  | unary _ e | field e _ | length e | cast _ e | instanceOf e _ _ | stepBefore _ e
  | stepAfter _ e => e.visits
  | binary _ l r | index l r | compound _ l r => l.visits ++ r.visits
  | ternary e l r => e.visits ++ l.visits ++ r.visits
  | call receiver _ _ args => receiver.visits ++ allVisits args
  | apply _ args | create _ args | anonymous _ args => allVisits args
  | createArray _ dimensions none => allVisits dimensions
  | createArray _ _ (some elements) => allVisits elements

def allVisits : List ExprCode → List Visit
  | [] => []
  | e :: es => e.visits ++ allVisits es

end

end Expr

def StmtCode.visits : StmtCode → List Visit
  | plain (.eval e) | plain (.throw e) | plain (.ret (some e) _) => e.visits
  | plain (.assign target value) => target.visits ++ value.visits
  | plain (.ret none _) => []
  | restated _ target again amount => target.visits ++ again.visits ++ amount.visits

mutual

def Element.visits (t : Target) : Element → List Visit
  | .mk form _ => formVisits t form

def formVisits (t : Target) : FormCode → List Visit
  | .block statements => statements.flatMap StmtCode.visits
  | .conditional condition whenTrue whenFalse =>
    condition.visits ++ codeVisits t whenTrue ++ branchVisits t whenFalse
  | .whileLoop condition body => condition.visits ++ codeVisits t body
  | .doLoop condition body => codeVisits t body ++ condition.visits
  | .countedLoop init condition update body =>
    init.toList.flatMap StmtCode.visits ++
      if t.lexicon.countedLoops then
        condition.visits ++ update.toList.flatMap StmtCode.visits ++ codeVisits t body
      else codeVisits t body ++ update.toList.flatMap StmtCode.visits ++ condition.visits
  | .forEach vars container body =>
    vars.map Visit.bind ++ container.visits ++ codeVisits t body
  | .guarded body handlers cleanup =>
    codeVisits t body ++ handlerVisits t handlers ++ branchVisits t cleanup
  | .switch selector cases => caseVisits t cases ++ selector.visits
  | .select selector arms fallback =>
    armVisits t arms ++ branchVisits t fallback ++ selector.visits

def codeVisits (t : Target) : List Element → List Visit
  | [] => []
  | e :: es => e.visits t ++ codeVisits t es

def branchVisits (t : Target) : Option (List Element) → List Visit
  | none => []
  | some code => codeVisits t code

def handlerVisits (t : Target) : List (Occurrence × List Element) → List Visit
  | [] => []
  | (v, body) :: handlers => .bind v :: codeVisits t body ++ handlerVisits t handlers

def caseVisits (t : Target) : List (List (Option Literal) × List Element) → List Visit
  | [] => []
  | (_, body) :: cases => codeVisits t body ++ caseVisits t cases

def armVisits (t : Target) : List (ExprCode × List Element) → List Visit
  | [] => []
  | (guard, body) :: arms => guard.visits ++ codeVisits t body ++ armVisits t arms

end

section Lists

variable (t : Target)

theorem branchVisits_eq_flatMap (code : Option (List Element)) :
    branchVisits t code = code.toList.flatMap (codeVisits t) := by
  cases code <;> simp [branchVisits]

theorem handlerVisits_eq_flatMap (handlers : List (Occurrence × List Element)) :
    handlerVisits t handlers = handlers.flatMap fun h => .bind h.1 :: codeVisits t h.2 := by
  induction handlers with
  | nil => simp [handlerVisits]
  | cons h handlers ih => simp [handlerVisits, ih]

theorem caseVisits_eq_flatMap (cases : List (List (Option Literal) × List Element)) :
    caseVisits t cases = cases.flatMap fun h => codeVisits t h.2 := by
  induction cases with
  | nil => simp [caseVisits]
  | cons h cases ih => simp [caseVisits, ih]

theorem armVisits_eq_flatMap (arms : List (ExprCode × List Element)) :
    armVisits t arms = arms.flatMap fun h => h.1.visits ++ codeVisits t h.2 := by
  induction arms with
  | nil => simp [armVisits]
  | cons h arms ih => simp [armVisits, ih]

end Lists

end Unparse
