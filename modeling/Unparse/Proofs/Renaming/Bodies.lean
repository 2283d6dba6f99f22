import Unparse.Print.Scope
import Unparse.Proofs.Walk.Consistent
import Unparse.Proofs.Walk.Related

/-! # Renamed bodies

Two bodies are the same up to the keys of their arenas if the variables and the
constructions in use correspond one to one, with the same contents and with links to
what corresponds. A key that points at nothing corresponds to such keys only. What
is not in use does not matter.
-/

namespace Unparse

variable {ν ν' κ κ' : Type}

namespace Expr

mutual

def map (f : ν → ν') (g : κ → κ') : Expr ν κ → Expr ν' κ'
  | const value => const value
  | binary op l r => binary op (l.map f g) (r.map f g)
  | unary op e => unary op (e.map f g)
  | ternary e l r => ternary (e.map f g) (l.map f g) (r.map f g)
  | field owner name => field (owner.map f g) name
  | staticField qualifier name => staticField qualifier name
  | var v => var (f v)
  | call receiver checked function args => call (receiver.map f g) checked function (mapAll f g args)
  | apply function args => apply function (mapAll f g args)
  | create cls args => create cls (mapAll f g args)
  | createArray element dimensions none => createArray element (mapAll f g dimensions) none
  | createArray element dimensions (some elements) =>
    createArray element (mapAll f g dimensions) (some (mapAll f g elements))
  | length array => length (array.map f g)
  | index array position => index (array.map f g) (position.map f g)
  | cast type e => cast type (e.map f g)
  | instanceOf e type inverted => instanceOf (e.map f g) type inverted
  | stepBefore step target => stepBefore step (target.map f g)
  | stepAfter step target => stepAfter step (target.map f g)
  | compound op target amount => compound op (target.map f g) (amount.map f g)
  | anonymous cls args => anonymous (g cls) (mapAll f g args)

def mapAll (f : ν → ν') (g : κ → κ') : List (Expr ν κ) → List (Expr ν' κ')
  | [] => []
  | e :: es => e.map f g :: mapAll f g es

end

theorem negate_map (f : ν → ν') (g : κ → κ') (e : Expr ν κ) :
    (e.map f g).negate = e.negate.map f g := by
  induction e using Expr.induct with
  | const value => cases value <;> rfl
  | unary op e => cases op <;> rfl
  | binary op l r ihl ihr => cases op <;> simp only [negate, BinaryOp.negated?, map, ihl, ihr]
  | createArray element dimensions initializer => cases initializer <;> rfl
  | _ => rfl

theorem isPure_map (f : ν → ν') (g : κ → κ') (e : Expr ν κ) : (e.map f g).isPure = e.isPure := by
  induction e using Expr.induct with
  | field owner name ih | length owner ih => exact ih
  | index l r ihl ihr => simp only [map, isPure, ihl, ihr]
  | createArray element dimensions initializer => cases initializer <;> rfl
  | _ => rfl

end Expr

abbrev Related {α β : Type} (R : α → β → Prop) : Type := {x : α × β // R x.1 x.2}

section Relations

variable (V : ν → ν' → Prop) (K : κ → κ' → Prop)

/-- The expressions are the two sides of one over pairs of related variables and
classes. -/
def Expr.Renamed (e : Expr ν κ) (e' : Expr ν' κ') : Prop :=
  ∃ both : Expr (Related V) (Related K),
    both.map (·.val.1) (·.val.1) = e ∧ both.map (·.val.2) (·.val.2) = e'

inductive Stmt.Renamed : Stmt ν κ → Stmt ν' κ' → Prop where
  | eval {e e'} (h : Expr.Renamed V K e e') : Renamed (.eval e) (.eval e')
  | assign {target target' value value'} (ht : Expr.Renamed V K target target')
      (hv : Expr.Renamed V K value value') :
    Renamed (.assign target value) (.assign target' value')
  | ret {value value'} (h : Option.Rel (Expr.Renamed V K) value value') (explicit : Bool) :
    Renamed (.ret value explicit) (.ret value' explicit)
  | throw {e e'} (h : Expr.Renamed V K e e') : Renamed (.throw e) (.throw e')

end Relations

section Bodies

variable (V : VariableId → VariableId → Prop) (K : κ → κ' → Prop)
  (C : ConstructionId → ConstructionId → Prop)

/-- The constructions have the same contents and links to what corresponds. -/
structure Construction.Renamed (c : Construction κ) (c' : Construction κ') : Prop where
  form : Form.Rel V (Expr.Renamed V K) (Stmt.Renamed V K) C c.form c'.form
  place : c.place = c'.place
  next : Option.Rel C c.next c'.next

/-- The errors are of one kind with keys that correspond. -/
inductive PrintError.Renamed : PrintError → PrintError → Prop where
  | unknownVariable {id id' : VariableId} (h : V id id') :
    Renamed (.unknownVariable id) (.unknownVariable id')
  | unknownConstruction {id id' : ConstructionId} (h : C id id') :
    Renamed (.unknownConstruction id) (.unknownConstruction id')
  | revisitedConstruction {id id' : ConstructionId} (h : C id id') :
    Renamed (.revisitedConstruction id) (.revisitedConstruction id')
  | unexpandableCompound (op : BinaryOp) :
    Renamed (.unexpandableCompound op) (.unexpandableCompound op)
  | unsupportedDestructuring (count : Nat) :
    Renamed (.unsupportedDestructuring count) (.unsupportedDestructuring count)
  | layout (reason : String) : Renamed (.layout reason) (.layout reason)

/-- The variables and constructions in use correspond one to one. -/
structure Body.Renamed (b : Body κ) (b' : Body κ') : Prop where
  lookup_eq : ∀ {i i'}, V i i' → b.vars.get? i = b'.vars.get? i'
  variable_iff : ∀ {i i' j j' v w}, V i i' → V j j' → b.vars.get? i = some v →
    b.vars.get? j = some w → (i = j ↔ i' = j')
  peek_rel : ∀ {k k'}, C k k' → Option.Rel (Construction.Renamed V K C)
    (b.constructions.get? k) (b'.constructions.get? k')
  construction_iff : ∀ {k k' l l' c d}, C k k' → C l l' → b.constructions.get? k = some c →
    b.constructions.get? l = some d → (k = l ↔ k' = l')
  entry : Option.Rel C b.entry b'.entry

end Bodies

section Scopes

variable {V : VariableId → VariableId → Prop} {K : κ → κ' → Prop}
  {C : ConstructionId → ConstructionId → Prop} {b : Body κ} {b' : Body κ'}

theorem Expr.Renamed.negate {e : Expr ν κ} {e' : Expr ν' κ'} {V : ν → ν' → Prop}
    (h : e.Renamed V K e') : e.negate.Renamed V K e'.negate := by
  obtain ⟨both, rfl, rfl⟩ := h
  exact ⟨both.negate, (Expr.negate_map _ _ both).symm, (Expr.negate_map _ _ both).symm⟩

namespace Body.Renamed

theorem variable_beq (h : b.Renamed V K C b') {i i' j j' : VariableId} (hi : V i i') (hj : V j j')
    {v : Variable} (hv : b.vars.get? j = some v) : (i == j) = (i' == j') := by
  rw [Bool.eq_iff_iff, beq_iff_eq, beq_iff_eq]
  cases hw : b.vars.get? i with
  | some w => exact h.variable_iff hi hj hw hv
  | none =>
    refine ⟨?_, ?_⟩
    · rintro rfl
      cases hw.symm.trans hv
    · rintro rfl
      rw [h.lookup_eq hi, ← h.lookup_eq hj, hv] at hw
      cases hw

theorem construction_beq (h : b.Renamed V K C b') {k k' l l' : ConstructionId} (hk : C k k')
    (hl : C l l') {c : Construction κ} (hc : b.constructions.get? l = some c) :
    (k == l) = (k' == l') := by
  rw [Bool.eq_iff_iff, beq_iff_eq, beq_iff_eq]
  cases hd : b.constructions.get? k with
  | some d => exact h.construction_iff hk hl hd hc
  | none =>
    refine ⟨?_, ?_⟩
    · rintro rfl
      cases hd.symm.trans hc
    · rintro rfl
      have hrel := h.peek_rel hk
      have hrel' := h.peek_rel hl
      rw [hd] at hrel
      rw [hc] at hrel'
      generalize b'.constructions.get? k' = o at hrel hrel'
      cases hrel
      cases hrel'

end Body.Renamed

/-- What corresponds is declared in both scopes or in none, and visited in both or
in none. -/
structure Scope.Renamed (V : VariableId → VariableId → Prop)
    (C : ConstructionId → ConstructionId → Prop) (b : Body κ) (b' : Body κ') (s s' : Scope) :
    Prop where
  left : s.Consistent b
  right : s'.Consistent b'
  declared : ∀ {i i'}, V i i' → s.declared.contains i = s'.declared.contains i'
  visited : ∀ {k k'}, C k k' → s.visited.contains k = s'.visited.contains k'

namespace Scope.Renamed

variable {s s' t t' : Scope}

theorem fresh (events events' : List Event) :
    Scope.Renamed V C b b' { events } { events := events' } :=
  ⟨Scope.consistent_fresh b events, Scope.consistent_fresh b' events', fun _ => rfl, fun _ => rfl⟩

theorem events (h : Scope.Renamed V C b b' s s') (events events' : List Event) :
    Scope.Renamed V C b b' { s with events } { s' with events := events' } :=
  ⟨h.left.events, h.right.events, h.declared, h.visited⟩

end Scope.Renamed

end Scopes

end Unparse
