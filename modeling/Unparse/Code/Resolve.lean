import Unparse.Code.Basic
import Unparse.Print.Scope
import Unparse.Target.Precedence

/-! # Resolving expressions and statements

Variables are looked up from left to right, and the first use of a local one
declares it. A compound assignment without an operator in the target language
is restated if it is a whole statement and its target may be written twice.
-/

namespace Unparse

open Layout (Doc)

/-- What a class looks like from outside: its supertypes, and how to print it
as a declaration and as the members of an anonymous class. -/
structure ClassText where
  interface : Option String
  superclass : Option String
  declaration : Printing Doc
  members : Printing Doc

structure Context (κ : Type) where
  target : Target
  body : Body κ
  view : κ → ClassText

namespace Context

variable {κ : Type}

def use (c : Context κ) (id : VariableId) : Walking Occurrence := do
  let v ← c.body.lookup id
  let declares ← if v.kind = .localVar then Walking.declare id else pure false
  if declares then Walking.report (.declared v.name)
  let occurrence := ⟨id, v.name, v.type, declares⟩
  Walking.record (.use occurrence)
  return occurrence

def bind (c : Context κ) (id : VariableId) : Walking Occurrence := do
  let v ← c.body.lookup id
  let _ ← Walking.declare id
  let occurrence := ⟨id, v.name, v.type, true⟩
  Walking.record (.bind occurrence)
  return occurrence

end Context

namespace Expr

variable {κ : Type}

mutual

/-- Resolve an expression. A call on `this` drops its receiver, an array with
an initializer drops its dimensions, and a class that implements an interface
drops the arguments of its constructor. -/
def resolve (c : Context κ) : Expr VariableId κ → Walking ExprCode
  | const value => return const value
  | binary op l r => return binary op (← l.resolve c) (← r.resolve c)
  | unary op e => return unary op (← e.resolve c)
  | ternary e l r => return ternary (← e.resolve c) (← l.resolve c) (← r.resolve c)
  | field owner name => return field (← owner.resolve c) name
  | staticField qualifier name => return staticField qualifier name
  | var id => return var (← c.use id)
  | call receiver checked function args =>
    if c.body.isThis receiver then return apply function (← resolveAll c args)
    else return call (← receiver.resolve c) checked function (← resolveAll c args)
  | apply function args => return apply function (← resolveAll c args)
  | create cls args => return create cls (← resolveAll c args)
  | createArray element dimensions none =>
    return createArray element (← resolveAll c dimensions) none
  | createArray element _ (some elements) =>
    return createArray element [] (some (← resolveAll c elements))
  | length array => return length (← array.resolve c)
  | index array position => return index (← array.resolve c) (← position.resolve c)
  | cast type e => return cast type (← e.resolve c)
  | instanceOf e type inverted => return instanceOf (← e.resolve c) type inverted
  | stepBefore step target => return stepBefore step (← target.resolve c)
  | stepAfter step target => return stepAfter step (← target.resolve c)
  | compound op target amount => do
    if (c.target.compoundToken? op).isNone then throw (.unexpandableCompound op)
    return compound op (← target.resolve c) (← amount.resolve c)
  | anonymous cls args => do
    let text := c.view cls
    let args ← if text.interface.isSome then pure [] else resolveAll c args
    let members ← Walking.outside text.members
    return anonymous ⟨text.interface, text.superclass, members⟩ args

def resolveAll (c : Context κ) : List (Expr VariableId κ) → Walking (List ExprCode)
  | [] => return []
  | e :: es => return (← e.resolve c) :: (← resolveAll c es)

end

end Expr

def Stmt.resolve {κ : Type} (c : Context κ) : Stmt VariableId κ → Walking StmtCode
  | .eval (.compound op target amount) => do
    if (c.target.compoundToken? op).isNone && target.isPure then
      return .restated op (← target.resolve c) (← target.resolve c) (← amount.resolve c)
    return .plain (.eval (← (Expr.compound op target amount).resolve c))
  | .eval e => return .plain (.eval (← e.resolve c))
  | .assign target value => return .plain (.assign (← target.resolve c) (← value.resolve c))
  | .ret none explicit => return .plain (.ret none explicit)
  | .ret (some e) explicit => return .plain (.ret (some (← e.resolve c)) explicit)
  | .throw e => return .plain (.throw (← e.resolve c))

end Unparse
