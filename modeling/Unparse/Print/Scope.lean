import Unparse.Code.Basic
import Unparse.Print.Error

/-! # Scopes

The traversal of one body keeps a scope: the variables declared and the
constructions visited so far. It ends with a result or an error, and in both
cases with the scope and the events up to that point.

A scope also keeps the history of the traversal. Nothing depends on it; it is
what statements about the order of visits are about.
-/

namespace Unparse

/-- Printing something that has no scope of its own. -/
abbrev Printing := ExceptT PrintError (StateM (List Event))

inductive Visit where
  | use (v : Occurrence)
  | bind (v : Occurrence)
  | enter (id : ConstructionId)
deriving DecidableEq, Repr

/-- The variables declared and the constructions visited so far, and all
events and visits up to now. -/
structure Scope where
  declared : KeySet := {}
  visited : KeySet := {}
  events : List Event := []
  history : List Visit := []
deriving DecidableEq, Repr, Inhabited

/-- Traversing a body within a scope. -/
abbrev Walking := ExceptT PrintError (StateM Scope)

def Printing.report (e : Event) : Printing Unit := modify (· ++ [e])

namespace Walking

def report (e : Event) : Walking Unit := modify fun s => { s with events := s.events ++ [e] }

def record (v : Visit) : Walking Unit := modify fun s => { s with history := s.history ++ [v] }

/-- Print something that has a scope of its own, or none. -/
def outside {α : Type} (p : Printing α) : Walking α :=
  ExceptT.mk fun s =>
    let (result, events) := p.run.run s.events
    (result, { s with events })

/-- Traverse a body in a scope of its own. -/
def alone {α : Type} (w : Walking α) : Printing α :=
  ExceptT.mk fun events =>
    let (result, s) := w.run.run { events }
    (result, s.events)

/-- Record a declaration and tell whether it is the first of its variable. -/
def declare (id : VariableId) : Walking Bool :=
  modifyGet fun s =>
    let (first, declared) := s.declared.insert id
    (first, { s with declared })

/-- Record a visit and tell whether it is the first of its construction. -/
def visit (id : ConstructionId) : Walking Bool :=
  modifyGet fun s =>
    let (first, visited) := s.visited.insert id
    (first, { s with visited })

end Walking

namespace Body

variable {κ : Type}

def lookup (b : Body κ) (id : VariableId) : Except PrintError Variable :=
  match b.vars.get? id with
  | some v => .ok v
  | none => .error (.unknownVariable id)

def peek (b : Body κ) (id : ConstructionId) : Except PrintError (Construction κ) :=
  match b.constructions.get? id with
  | some c => .ok c
  | none => .error (.unknownConstruction id)

def enter (b : Body κ) (id : ConstructionId) : Walking (Construction κ) := do
  let c ← b.peek id
  if ← Walking.visit id then
    Walking.record (.enter id)
    return c
  throw (.revisitedConstruction id)

end Body

end Unparse
