import Unparse.Arena.Basic
import Unparse.Program.Construction

/-! # Bodies

The variables and constructions of one method and the head of its chain.
-/

namespace Unparse

inductive VariableKind where
  /-- Declared with its type where it is first used. -/
  | localVar
  | parameter
  | captured
  | this
deriving DecidableEq, Repr

structure Variable where
  name : String
  type : String
  kind : VariableKind
deriving DecidableEq, Repr

def Variable.this (cls : String) : Variable := ⟨"this", cls, .this⟩

/-- The variables and constructions of one method and the head of its chain. -/
structure Body (κ : Type) where
  vars : Arena Variable := {}
  constructions : Arena (Construction κ) := {}
  entry : Option ConstructionId := none

namespace Body

variable {κ : Type}

def addVariable (b : Body κ) (v : Variable) : VariableId × Body κ :=
  let (id, vars) := b.vars.insert v
  (id, { b with vars })

def addConstruction (b : Body κ) (c : Construction κ) : ConstructionId × Body κ :=
  let (id, constructions) := b.constructions.insert c
  (id, { b with constructions })

def eraseVariable (b : Body κ) (id : VariableId) : Body κ :=
  { b with vars := b.vars.erase id }

def eraseConstruction (b : Body κ) (id : ConstructionId) : Body κ :=
  { b with constructions := b.constructions.erase id }

/-- Make one construction the successor of another, and tell whether it
displaces an earlier successor. -/
def link (b : Body κ) (source target : ConstructionId) : Bool × Body κ :=
  ((((b.constructions.get? source).map (·.next.isSome)).getD false),
    { b with constructions :=
        b.constructions.modify source fun c => { c with next := some target } })

/-- Link constructions in the given order. The result lists those whose earlier
successor was displaced. -/
def chain : List ConstructionId → Body κ → List ConstructionId × Body κ
  | source :: target :: ids, b =>
    let (displaced, b) := b.link source target
    let (rest, b) := chain (target :: ids) b
    (if displaced then source :: rest else rest, b)
  | _, b => ([], b)

def isThis (b : Body κ) : Expr VariableId κ → Bool
  | .var id =>
    match b.vars.get? id with
    | some v => v.kind = .this
    | none => false
  | _ => false

end Body

end Unparse
