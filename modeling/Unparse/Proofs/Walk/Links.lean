import Mathlib.Data.Multiset.Bind
import Unparse.Proofs.Walk.Resolve

/-! # Links between constructions

The links of a construction are its branches and its successor. The part of a
body that is reachable from a head is a tree if its links lead to live
constructions, no two of them to the same one, and none back to the head.
-/

namespace Unparse

variable {κ : Type}

def Form.branches {ν ε σ β : Type} : Form ν ε σ β → List β
  | block _ => []
  | conditional _ whenTrue whenFalse => whenTrue :: whenFalse.toList
  | whileLoop _ body | doLoop _ body | countedLoop _ _ _ body | forEach _ _ body => [body]
  | guarded body handlers cleanup => body :: (handlers.map Prod.snd ++ cleanup.toList)
  | switch _ cases => cases.map Prod.snd
  | select _ arms fallback => arms.map Prod.snd ++ fallback.toList

def Form.classes {ν ν' β : Type} : Form ν (Expr ν' κ) (Stmt ν' κ) β → List κ
  | block statements => statements.flatMap Stmt.classes
  | conditional e _ _ | whileLoop e _ | doLoop e _ | forEach _ e _ | switch e _ => e.classes
  | countedLoop init e update _ =>
    init.toList.flatMap Stmt.classes ++ e.classes ++ update.toList.flatMap Stmt.classes
  | guarded _ _ _ => []
  | select e arms _ => arms.flatMap (fun arm => arm.1.classes) ++ e.classes

def Construction.links (c : Construction κ) : List ConstructionId :=
  c.form.branches ++ c.next.toList

def Body.links (b : Body κ) (id : ConstructionId) : List ConstructionId :=
  ((b.constructions.get? id).map Construction.links).getD []

theorem Body.links_of_get? {b : Body κ} {id : ConstructionId} {c : Construction κ}
    (h : b.constructions.get? id = some c) : b.links id = c.links := by
  simp [Body.links, h]

/-- The keys that links lead to from a head. -/
inductive Reaches (b : Body κ) (head : Option ConstructionId) : ConstructionId → Prop where
  | head {id : ConstructionId} (h : head = some id) : Reaches b head id
  | link {id target : ConstructionId} (h : Reaches b head id) (ht : target ∈ b.links id) :
    Reaches b head target

/-- The part reachable from a head is a tree. -/
structure IsTree (b : Body κ) (head : Option ConstructionId) : Prop where
  live : ∀ id, Reaches b head id → b.constructions.contains id = true
  nodup : ∀ id, Reaches b head id → (b.links id).Nodup
  disjoint : ∀ id id', Reaches b head id → Reaches b head id' → id ≠ id' →
    List.Disjoint (b.links id) (b.links id')
  not_head : ∀ id, Reaches b head id → ∀ target ∈ b.links id, head ≠ some target
  irrefl : ∀ id, Reaches b head id → id ∉ b.links id

def Body.linksOf (b : Body κ) (ids : List ConstructionId) : Multiset ConstructionId :=
  ids.flatMap b.links

namespace Body

variable (b : Body κ)

@[simp] theorem linksOf_nil : b.linksOf [] = 0 := rfl

@[simp] theorem linksOf_cons (id : ConstructionId) (ids : List ConstructionId) :
    b.linksOf (id :: ids) = b.links id + b.linksOf ids := by
  simp [linksOf]

@[simp] theorem linksOf_append (ids ids' : List ConstructionId) :
    b.linksOf (ids ++ ids') = b.linksOf ids + b.linksOf ids' := by
  simp [linksOf]

theorem mem_linksOf {ids : List ConstructionId} {target : ConstructionId} :
    target ∈ b.linksOf ids ↔ ∃ id ∈ ids, target ∈ b.links id := by
  simp [linksOf]

end Body

end Unparse
