import Unparse.Arena.Key
import Unparse.Program.Stmt

/-! # Constructions

The structured control flow of a method body. A `Form` is one control
structure over its variables `ν`, expressions `ε`, statements `σ` and branches
`β`. In a program the branches are keys of an arena, and the constructions of
one branch are chained by their `next` keys.
-/

namespace Unparse

abbrev VariableId := Key

abbrev ConstructionId := Key

/-- A `break` or `continue`, out of the innermost loop if it has no label. -/
structure Jump where
  label : Option String
deriving DecidableEq, Repr

/-- One control structure over variables `ν`, expressions `ε`, statements `σ`
and branches `β`. -/
inductive Form (ν ε σ β : Type) where
  | block (statements : List σ)
  | conditional (condition : ε) (whenTrue : β) (whenFalse : Option β)
  | whileLoop (condition : ε) (body : β)
  | doLoop (condition : ε) (body : β)
  | countedLoop (init : Option σ) (condition : ε) (update : Option σ) (body : β)
  /-- A loop over the elements of a container. Several variables take the
  components of each element. -/
  | forEach (vars : List ν) (container : ε) (body : β)
  | guarded (body : β) (handlers : List (ν × β)) (cleanup : Option β)
  /-- A choice by constants. The key `none` is the default. -/
  | switch (selector : ε) (cases : List (List (Option Literal) × β))
  | select (selector : ε) (arms : List (ε × β)) (fallback : Option β)

namespace Form

variable {ν ε σ β : Type}

def isBlock : Form ν ε σ β → Bool
  | block _ => true
  | _ => false

def isEmptyBlock : Form ν ε σ β → Bool
  | block [] => true
  | _ => false

def isConditional : Form ν ε σ β → Bool
  | conditional _ _ _ => true
  | _ => false

def isCountedLoop : Form ν ε σ β → Bool
  | countedLoop _ _ _ _ => true
  | _ => false

end Form

/-- What a place in a chain adds to the control structure there: the label of
a loop in front of it, and the jumps after it. -/
structure Place where
  label : Option String := none
  breakTo : Option Jump := none
  continueTo : Option Jump := none
deriving DecidableEq, Repr

def Place.isBare (p : Place) : Bool :=
  p.label.isNone && p.breakTo.isNone && p.continueTo.isNone

/-- A construction of a program. Conditions of conditionals, `while` loops and
counted loops are those under which the body is skipped. -/
structure Construction (κ : Type) where
  form : Form VariableId (Expr VariableId κ) (Stmt VariableId κ) ConstructionId
  place : Place := {}
  next : Option ConstructionId := none

/-- A block that holds nothing. As an `else` branch it only carries the chain
of an `else if`. -/
def Construction.isEmptyBlock {κ : Type} (c : Construction κ) : Bool :=
  c.form.isEmptyBlock && c.place.isBare

end Unparse
