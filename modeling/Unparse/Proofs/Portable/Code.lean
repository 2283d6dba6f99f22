import Unparse.Proofs.Portable.Demands

/-! # Portable code

Code is portable if no loop in it takes elements apart and no compound assignment has an
operator that only one of the target languages knows. What portable code demands can be
told without the target, although the parts of a counted loop are visited in another
order where it is written as a `while` loop.
-/

namespace Unparse

open Walking

variable {κ : Type}

namespace BinaryOp

def isBitwise : BinaryOp → Bool
  | shl | shr | ushr | bitAnd | bitOr | bitXor => true
  | _ => false

def isArithmetic : BinaryOp → Bool
  | add | sub | mul | div | rem => true
  | _ => false

theorem isNone_compoundToken? {op : BinaryOp} (h : op.isBitwise = false) (t : Target) :
    (t.compoundToken? op).isNone = !op.isArithmetic := by
  cases op <;> first | cases h; done | cases t <;> rfl

end BinaryOp

namespace Expr

variable {ν : Type}

mutual

/-- No compound assignment has an operator on bits, and the anonymous classes are among
the classes `A`. -/
def Portable (A : κ → Prop) : Expr ν κ → Prop
  | const _ | staticField _ _ | var _ => True
  | unary _ e | field e _ | length e | cast _ e | instanceOf e _ _ | stepBefore _ e
  | stepAfter _ e => e.Portable A
  | binary _ l r | index l r => l.Portable A ∧ r.Portable A
  | ternary e l r => e.Portable A ∧ l.Portable A ∧ r.Portable A
  | call receiver _ _ args => receiver.Portable A ∧ AllPortable A args
  | apply _ args | create _ args => AllPortable A args
  | createArray _ dimensions none => AllPortable A dimensions
  | createArray _ dimensions (some elements) => AllPortable A dimensions ∧ AllPortable A elements
  | compound op target amount => op.isBitwise = false ∧ target.Portable A ∧ amount.Portable A
  | anonymous cls args => A cls ∧ AllPortable A args

def AllPortable (A : κ → Prop) : List (Expr ν κ) → Prop
  | [] => True
  | e :: es => e.Portable A ∧ AllPortable A es

end

variable {A : κ → Prop}

theorem allPortable_iff {es : List (Expr ν κ)} :
    AllPortable A es ↔ ∀ e ∈ es, e.Portable A := by
  induction es with
  | nil => simp [AllPortable]
  | cons e es ih => simp [AllPortable, ih]

theorem portable_negate (e : Expr ν κ) : e.negate.Portable A ↔ e.Portable A := by
  induction e using Expr.induct with
  | const value => cases value <;> rfl
  | unary op e => cases op <;> rfl
  | binary op l r ihl ihr =>
    cases op <;> simp only [negate, BinaryOp.negated?, Portable, ihl, ihr]
  | _ => simp only [negate, Portable]

mutual

/-- What an expression demands. Some classes drop the arguments of their constructor. -/
def demands (b : Body κ) (drops : κ → Bool) : Expr VariableId κ → Multiset (Demand κ)
  | const _ | staticField _ _ => 0
  | var id => {.use id}
  | unary _ e | field e _ | length e | cast _ e | instanceOf e _ _ | stepBefore _ e
  | stepAfter _ e => e.demands b drops
  | binary _ l r | index l r => l.demands b drops + r.demands b drops
  | ternary e l r => e.demands b drops + (l.demands b drops + r.demands b drops)
  | call receiver _ _ args =>
    if b.isThis receiver then allDemands b drops args
    else receiver.demands b drops + allDemands b drops args
  | apply _ args | create _ args => allDemands b drops args
  | createArray _ dimensions none => allDemands b drops dimensions
  | createArray _ _ (some elements) => allDemands b drops elements
  | compound op target amount =>
    if op.isArithmetic then target.demands b drops + amount.demands b drops else {.never}
  | anonymous cls args => (if drops cls then 0 else allDemands b drops args) + {.members cls}

def allDemands (b : Body κ) (drops : κ → Bool) : List (Expr VariableId κ) → Multiset (Demand κ)
  | [] => 0
  | e :: es => e.demands b drops + allDemands b drops es

end

end Expr

namespace Stmt

def Portable {ν : Type} (A : κ → Prop) : Stmt ν κ → Prop
  | eval e | throw e | ret (some e) _ => e.Portable A
  | assign target value => target.Portable A ∧ value.Portable A
  | ret none _ => True

/-- What a statement demands. A compound assignment that is restated demands its target
twice. -/
def demands (b : Body κ) (drops : κ → Bool) : Stmt VariableId κ → Multiset (Demand κ)
  | eval (.compound op target amount) =>
    if !op.isArithmetic && target.isPure then
      target.demands b drops + (target.demands b drops + amount.demands b drops)
    else (Expr.compound op target amount).demands b drops
  | eval e | throw e | ret (some e) _ => e.demands b drops
  | assign target value => target.demands b drops + value.demands b drops
  | ret none _ => 0

end Stmt

/-- Whether a control structure is portable, apart from its branches. -/
structure Form.Portable {ν ν' β : Type} (A : κ → Prop)
    (form : Form ν (Expr ν' κ) (Stmt ν' κ) β) : Prop where
  each : form.Each (Expr.Portable A) (Stmt.Portable A) fun _ => True
  simple : ∀ vars container body, form = .forEach vars container body → vars.length ≤ 1

/-- Whether all constructions of a body are portable. -/
def Body.Portable (A : κ → Prop) (b : Body κ) : Prop :=
  ∀ id construction, b.constructions.get? id = some construction → construction.form.Portable A

namespace Context

variable (c : Context κ) (B : ConstructionId → Multiset (Demand κ))

def elseDemands (id : ConstructionId) : Multiset (Demand κ) :=
  match c.elseIf? id with
  | .error _ => {.never}
  | .ok none => B id
  | .ok (some next) => {.enter id} + B next

def formDemands : Form VariableId (Expr VariableId κ) (Stmt VariableId κ) ConstructionId →
    Multiset (Demand κ)
  | .block statements => (statements.map (Stmt.demands c.body c.drops)).sum
  | .conditional skip whenTrue whenFalse =>
    skip.negate.demands c.body c.drops +
      (B whenTrue + whenFalse.elim 0 (c.elseDemands B))
  | .whileLoop skip body => skip.negate.demands c.body c.drops + B body
  | .doLoop condition body => B body + condition.demands c.body c.drops
  | .countedLoop init skip update body =>
    init.elim 0 (Stmt.demands c.body c.drops) +
      (skip.negate.demands c.body c.drops +
        (update.elim 0 (Stmt.demands c.body c.drops) + B body))
  | .forEach vars container body =>
    (if vars.length = 1 then (vars.map fun id => {.bind id}).sum else {.never}) +
      (container.demands c.body c.drops + B body)
  | .guarded body handlers cleanup =>
    B body + ((handlers.map fun handler => {.bind handler.1} + B handler.2).sum +
      cleanup.elim 0 B)
  | .switch selector cases =>
    (cases.map fun case => B case.2).sum + selector.demands c.body c.drops
  | .select selector arms fallback =>
    (arms.map fun arm => arm.1.demands c.body c.drops + B arm.2).sum +
      (fallback.elim 0 B + selector.demands c.body c.drops)

/-- What a chain demands in which at most `depth` constructions are entered one inside or
after another. -/
def demandsWithin : (depth : Nat) → Option ConstructionId → Multiset (Demand κ)
  | _, none => 0
  | 0, some id => {.enter id} + (c.body.constructions.get? id).elim 0 fun _ => {.never}
  | depth + 1, some id =>
    {.enter id} + (c.body.constructions.get? id).elim 0 fun construction =>
      c.formDemands (fun branch => demandsWithin depth (some branch)) construction.form +
        demandsWithin depth construction.next

def demands (head : Option ConstructionId) : Multiset (Demand κ) :=
  c.demandsWithin c.body.constructions.size head

/-- What is demanded depends on the body and on the classes that drop arguments. -/
theorem demandsWithin_congr {c c' : Context κ} (hbody : c'.body = c.body)
    (hdrops : c'.drops = c.drops) (n : Nat) (head : Option ConstructionId) :
    c'.demandsWithin n head = c.demandsWithin n head := by
  have helse (B : ConstructionId → Multiset (Demand κ)) : c'.elseDemands B = c.elseDemands B := by
    funext id
    simp only [elseDemands, elseIf?, hbody]
  have hform (B : ConstructionId → Multiset (Demand κ)) : c'.formDemands B = c.formDemands B := by
    funext form
    cases form <;> simp only [formDemands, hbody, hdrops, helse]
  induction n generalizing head with
  | zero => cases head <;> simp only [demandsWithin, hbody]
  | succ n ih =>
    cases head with
    | none => rfl
    | some id => simp only [demandsWithin, hbody, hform, ih]

end Context

section Traversal

variable {c : Context κ} {A : κ → Prop}

theorem asks_resolveAll {es : List (Expr VariableId κ)}
    (h : ∀ e ∈ es, Asks c A (e.resolve c) (e.demands c.body c.drops)) :
    Asks c A (Expr.resolveAll c es) (Expr.allDemands c.body c.drops es) := by
  induction es with
  | nil => exact .pure []
  | cons e es ih =>
    rw [Expr.resolveAll]
    refine (h e List.mem_cons_self).bind fun code => ?_
    exact (ih fun x hx => h x (List.mem_cons_of_mem e hx)).map

theorem asks_expr (hview : ∀ cls, Logs (c.view cls).members fun _ _ => True)
    {e : Expr VariableId κ} (h : e.Portable A) :
    Asks c A (e.resolve c) (e.demands c.body c.drops) := by
  have hall {es : List (Expr VariableId κ)} (hes : Expr.AllPortable A es)
      (ih : ∀ e ∈ es, e.Portable A → Asks c A (e.resolve c) (e.demands c.body c.drops)) :
      Asks c A (Expr.resolveAll c es) (Expr.allDemands c.body c.drops es) :=
    asks_resolveAll fun e he => ih e he (Expr.allPortable_iff.mp hes e he)
  induction e using Expr.induct with
  | const value => exact .pure _
  | binary op l r ihl ihr =>
    rw [Expr.resolve]
    exact (ihl h.1).bind fun _ => (ihr h.2).map
  | unary op e ih =>
    rw [Expr.resolve]
    exact (ih h).map
  | ternary e l r ihe ihl ihr =>
    rw [Expr.resolve]
    exact (ihe h.1).bind fun _ => (ihl h.2.1).bind fun _ => (ihr h.2.2).map
  | field owner name ih =>
    rw [Expr.resolve]
    exact (ih h).map
  | staticField qualifier name => exact .pure _
  | var id =>
    rw [Expr.resolve]
    exact (asks_use id).map
  | call receiver checked function args ih iha =>
    rw [Expr.resolve, Expr.demands]
    split
    · exact (hall h.2 iha).map
    · exact (ih h.1).bind fun _ => (hall h.2 iha).map
  | apply function args iha =>
    rw [Expr.resolve]
    exact (hall h iha).map
  | create cls args iha =>
    rw [Expr.resolve]
    exact (hall h iha).map
  | createArray element dimensions initializer ihd ihi =>
    cases initializer with
    | none =>
      rw [Expr.resolve]
      exact (hall h ihd).map
    | some elements =>
      rw [Expr.resolve]
      exact (hall h.2 (ihi elements rfl)).map
  | length array ih =>
    rw [Expr.resolve]
    exact (ih h).map
  | index array position iha ihp =>
    rw [Expr.resolve]
    exact (iha h.1).bind fun _ => (ihp h.2).map
  | cast type e ih =>
    rw [Expr.resolve]
    exact (ih h).map
  | instanceOf e type inverted ih =>
    rw [Expr.resolve]
    exact (ih h).map
  | stepBefore step target ih =>
    rw [Expr.resolve]
    exact (ih h).map
  | stepAfter step target ih =>
    rw [Expr.resolve]
    exact (ih h).map
  | compound op target amount iht iha =>
    rw [Expr.resolve, Expr.demands, BinaryOp.isNone_compoundToken? h.1]
    cases op.isArithmetic with
    | false => exact .throw_bind _
    | true => exact (iht h.2.1).bind fun _ => (iha h.2.2).map
  | anonymous cls args iha =>
    have hmembers (args' : List ExprCode) : Asks c A (do
        let members ← outside (c.view cls).members
        return (Expr.anonymous ⟨(c.view cls).interface, (c.view cls).superclass, members⟩ args' :
          ExprCode)) {.members cls} := (asks_members h.1 (hview cls)).map
    rw [Expr.resolve, Expr.demands, Context.drops]
    split
    · exact (Asks.pure _).bind hmembers
    · exact (hall h.2 iha).bind hmembers

theorem asks_stmt (hview : ∀ cls, Logs (c.view cls).members fun _ _ => True)
    {stmt : Stmt VariableId κ} (h : stmt.Portable A) :
    Asks c A (stmt.resolve c) (stmt.demands c.body c.drops) := by
  cases stmt with
  | eval e =>
    have heval : Asks c A (do return StmtCode.plain (.eval (← e.resolve c)))
        (e.demands c.body c.drops) := (asks_expr hview h).map
    cases e with
    | compound op target amount =>
      rw [Stmt.resolve, Stmt.demands, BinaryOp.isNone_compoundToken? h.1]
      split
      · exact (asks_expr hview h.2.1).bind fun _ => (asks_expr hview h.2.1).bind fun _ =>
          (asks_expr hview h.2.2).map
      · exact heval
    | _ => exact heval
  | assign target value =>
    rw [Stmt.resolve]
    exact (asks_expr hview h.1).bind fun _ => (asks_expr hview h.2).map
  | ret value explicit =>
    cases value with
    | none => exact .pure _
    | some e =>
      rw [Stmt.resolve]
      exact (asks_expr hview h).map
  | throw e =>
    rw [Stmt.resolve]
    exact (asks_expr hview h).map

variable {B : ConstructionId → Multiset (Demand κ)} {walk : ConstructionId → Walking Code}

theorem asks_elseBranch (hwalk : ∀ id, Asks c A (walk id) (B id)) (id : ConstructionId) :
    Asks c A (c.elseBranch walk id) (c.elseDemands B id) := by
  rw [Context.elseBranch, Context.elseDemands]
  cases helse : c.elseIf? id with
  | error e => exact .throw_bind e
  | ok follower =>
    cases follower with
    | none => exact hwalk id
    | some next =>
      obtain ⟨carrier, hget, -, -⟩ := Context.carrier_of_elseIf? helse
      have hcarrier : Asks c A (do
          let carrier ← c.body.enter id
          return Element.mk (.block []) carrier.place :: (← walk next))
          ({.enter id} + (c.body.constructions.get? id).elim 0 fun _ => B next) :=
        .enter fun _ _ => (hwalk next).map
      rwa [hget, Option.elim_some] at hcarrier

theorem asks_loopVariables {vars : List VariableId} (h : vars.length ≤ 1) :
    Asks c A (c.loopVariables vars)
      (if vars.length = 1 then (vars.map fun id => {.bind id}).sum else {.never}) := by
  have hmany : ¬ 2 ≤ vars.length := by omega
  rw [Context.loopVariables]
  by_cases hone : vars.length = 1
  · simp only [hone, decide_true, Bool.true_or, if_true]
    exact .mapM fun id _ => asks_bind id
  · simp only [hone, hmany, decide_false, Bool.false_and, Bool.or_false, Bool.false_eq_true,
      if_false]
    exact .throw _

theorem asks_unfoldForm (hview : ∀ cls, Logs (c.view cls).members fun _ _ => True)
    (hwalk : ∀ id, Asks c A (walk id) (B id))
    {form : Form VariableId (Expr VariableId κ) (Stmt VariableId κ) ConstructionId}
    (h : form.Portable A) : Asks c A (c.unfoldForm walk form) (c.formDemands B form) := by
  have hguard {skip : Expr VariableId κ} (hskip : skip.Portable A) :
      Asks c A (c.guard skip) (skip.negate.demands c.body c.drops) :=
    asks_expr hview (skip.portable_negate.mpr hskip)
  obtain ⟨heach, hvars⟩ := h
  cases form with
  | block statements =>
    exact (Asks.mapM fun stmt hstmt => asks_stmt hview (heach stmt hstmt)).map
  | conditional skip whenTrue whenFalse =>
    exact (hguard heach.1).bind fun _ => (hwalk whenTrue).bind fun _ =>
      (Asks.optional fun id _ => asks_elseBranch hwalk id).map
  | whileLoop skip body => exact (hguard heach.1).bind fun _ => (hwalk body).map
  | doLoop condition body => exact (hwalk body).bind fun _ => (asks_expr hview heach.1).map
  | countedLoop init skip update body =>
    obtain ⟨hi, hc, hu, -⟩ := heach
    have hinit := Asks.optional fun stmt hstmt => asks_stmt hview (hi stmt hstmt)
    have hupdate := Asks.optional fun stmt hstmt => asks_stmt hview (hu stmt hstmt)
    rw [Context.unfoldForm]
    refine hinit.bind fun _ => ?_
    split
    · exact (hguard hc).bind fun _ => hupdate.bind fun _ => (hwalk body).map
    · -- The body comes first here, but what is demanded is the same.
      have horder (x y z : Multiset (Demand κ)) : x + (y + z) = z + (y + x) := by
        rw [add_left_comm, add_comm x z, add_left_comm]
      rw [horder]
      exact (hwalk body).bind fun _ => hupdate.bind fun _ => (hguard hc).map
  | forEach vars container body =>
    exact (asks_loopVariables (hvars _ _ _ rfl)).bind fun _ =>
      (asks_expr hview heach.1).bind fun _ => (hwalk body).map
  | guarded body handlers cleanup =>
    exact (hwalk body).bind fun _ => (Asks.mapM fun handler _ =>
      (asks_bind handler.1).bind fun _ => (hwalk handler.2).map).bind fun _ =>
        (Asks.optional fun id _ => hwalk id).map
  | switch selector cases =>
    exact (Asks.mapM fun case _ => (hwalk case.2).map).bind fun _ =>
      (asks_expr hview heach.1).map
  | select selector arms fallback =>
    obtain ⟨he, ha, -⟩ := heach
    exact (Asks.mapM fun arm harm => (asks_expr hview (ha arm harm).1).bind fun _ =>
      (hwalk arm.2).map).bind fun _ => (Asks.optional fun id _ => hwalk id).bind fun _ =>
        (asks_expr hview he).map

/-- Unfolding a chain of a portable body asks for what the chain demands. -/
theorem asks_unfoldWithin (hview : ∀ cls, Logs (c.view cls).members fun _ _ => True)
    (hbody : c.body.Portable A) (n : Nat) (head : Option ConstructionId) :
    Asks c A (c.unfoldWithin n head) (c.demandsWithin n head) := by
  induction n generalizing head with
  | zero =>
    cases head with
    | none => exact .pure []
    | some id => exact .enter fun _ _ => .throw _
  | succ n ih =>
    cases head with
    | none => exact .pure []
    | some id =>
      refine .enter fun construction hget => ?_
      have hform := asks_unfoldForm hview (fun branch => ih (some branch))
        (hbody id construction hget)
      have hrest := hform.bind fun form =>
        (ih construction.next).map (g := fun rest => Element.mk form construction.place :: rest)
      have hall := (asks_report (.entered id)).bind fun _ => hrest
      rwa [zero_add] at hall

theorem asks_unfold (hview : ∀ cls, Logs (c.view cls).members fun _ _ => True)
    (hbody : c.body.Portable A) (head : Option ConstructionId) :
    Asks c A (c.unfold head) (c.demands head) := asks_unfoldWithin hview hbody _ head

end Traversal

end Unparse
