import Unparse.Code.Unfold
import Unparse.Proofs.Walk.Visits

/-! # Visits of expressions and statements

Resolving an expression visits its variables from left to right and enters no
construction. It fails for reasons of its own, or for those that the members of
an anonymous class cannot be printed for.
-/

namespace Unparse

open Walking

variable {κ α β : Type}

namespace Expr

variable {ν : Type}

mutual

def classes : Expr ν κ → List κ
  | const _ | staticField _ _ | var _ => []
  | unary _ e | field e _ | length e | cast _ e | instanceOf e _ _ | stepBefore _ e
  | stepAfter _ e => e.classes
  | binary _ l r | index l r | compound _ l r => l.classes ++ r.classes
  | ternary e l r => e.classes ++ l.classes ++ r.classes
  | call receiver _ _ args => receiver.classes ++ allClasses args
  | apply _ args | create _ args => allClasses args
  | createArray _ dimensions none => allClasses dimensions
  | createArray _ dimensions (some elements) => allClasses dimensions ++ allClasses elements
  | anonymous cls args => cls :: allClasses args

def allClasses : List (Expr ν κ) → List κ
  | [] => []
  | e :: es => e.classes ++ allClasses es

end

theorem mem_allClasses {cls : κ} {es : List (Expr ν κ)} :
    cls ∈ allClasses es ↔ ∃ e ∈ es, cls ∈ e.classes := by
  induction es with
  | nil => simp [allClasses]
  | cons e es ih => simp [allClasses, ih]

theorem classes_negate (e : Expr ν κ) : e.negate.classes = e.classes := by
  induction e using Expr.induct with
  | const value => cases value <;> rfl
  | unary op e => cases op <;> rfl
  | binary op l r ihl ihr =>
    cases op <;> simp only [negate, BinaryOp.negated?, classes, ihl, ihr]
  | _ => simp only [negate, classes]

end Expr

def Stmt.classes {ν : Type} : Stmt ν κ → List κ
  | .eval e | .throw e | .ret (some e) _ => e.classes
  | .assign target value => target.classes ++ value.classes
  | .ret none _ => []

/-- An error that is no matter of links. The members of the classes `A` are
printed in scopes of their own. -/
inductive Plain (c : Context κ) (A : κ → Prop) : PrintError → Prop where
  | variable (id : VariableId) : Plain c A (.unknownVariable id)
  | compound (op : BinaryOp) : Plain c A (.unexpandableCompound op)
  | destructuring (count : Nat) : Plain c A (.unsupportedDestructuring count)
  | members {cls : κ} {e : PrintError} (events : List Event) (hcls : A cls)
      (he : ((c.view cls).members.run.run events).1 = .error e) : Plain c A e

/-- A traversal that visits variables only. -/
def Resolves (c : Context κ) (A : κ → Prop) (w : Walking α) (P : α → List Visit → Prop) : Prop :=
  ∀ s, Meets s w
    (fun a s' => ∃ vs, entered vs = [] ∧ Path c.body s vs s' ∧ P a vs)
    (fun e s' => ∃ vs, entered vs = [] ∧ Path c.body s vs s' ∧ Plain c A e)

namespace Resolves

variable {c : Context κ} {A : κ → Prop} {w : Walking α} {f : α → Walking β}
  {P : α → List Visit → Prop} {Q : β → List Visit → Prop}

theorem pure {a : α} (h : P a []) : Resolves c A (Pure.pure a) P :=
  fun s => ⟨[], rfl, .refl s, h⟩

theorem throw_bind {e : PrintError} (h : Plain c A e) :
    Resolves c A ((throw e : Walking α) >>= f) Q :=
  fun s => ⟨[], rfl, .refl s, h⟩

theorem bind (hw : Resolves c A w P)
    (hf : ∀ a vs, P a vs → Resolves c A (f a) fun b us => Q b (vs ++ us)) :
    Resolves c A (w >>= f) Q := by
  intro s
  rw [meets_bind]
  refine (hw s).mono ?_ fun _ _ => id
  rintro a s' ⟨vs, hvs, hpath, ha⟩
  refine (hf a vs ha s').mono ?_ ?_
  · rintro b s'' ⟨us, hus, hpath', hb⟩
    exact ⟨vs ++ us, by rw [entered_append, hvs, hus, List.nil_append], hpath.append hpath', hb⟩
  · rintro e s'' ⟨us, hus, hpath', he⟩
    exact ⟨vs ++ us, by rw [entered_append, hvs, hus, List.nil_append], hpath.append hpath', he⟩

theorem mapM {as : List α} {g : α → Walking β} {V : β → List Visit}
    (h : ∀ a ∈ as, Resolves c A (g a) fun b vs => vs = V b) :
    Resolves c A (as.mapM g) fun bs vs => vs = bs.flatMap V := by
  induction as with
  | nil => exact .pure rfl
  | cons a as ih =>
    rw [List.mapM_cons]
    refine (h a List.mem_cons_self).bind fun b vs hvs => ?_
    refine (ih fun x hx => h x (List.mem_cons_of_mem a hx)).bind fun bs us hus => ?_
    exact .pure (by simp [hvs, hus])

theorem optional {o : Option α} {g : α → Walking β} {V : β → List Visit}
    (h : ∀ a ∈ o, Resolves c A (g a) fun b vs => vs = V b) :
    Resolves c A (o.mapM g) fun b vs => vs = b.toList.flatMap V := by
  cases o with
  | none => exact .pure rfl
  | some a =>
    refine (h a rfl).bind fun b vs hvs => .pure ?_
    simpa using hvs

end Resolves

variable {c : Context κ} {A : κ → Prop}

namespace Context

variable {id : VariableId}

theorem use_of_none (h : c.body.vars.get? id = none) : c.use id = throw (.unknownVariable id) := by
  rw [use, Body.lookup, h]
  rfl

theorem bind_of_none (h : c.body.vars.get? id = none) :
    c.bind id = throw (.unknownVariable id) := by
  rw [bind, Body.lookup, h]
  rfl

end Context

theorem takes_use {id : VariableId} {v : Variable}
    (hv : c.body.vars.get? id = some v) (s : Scope) :
    Meets s (c.use id) (fun a t => a.id = id ∧ Takes c.body s (.use a) t) fun _ _ => False := by
  by_cases hk : v.kind = .localVar
  · have htake (events : List Event) := Takes.useLocal (s := s) hv hk events
    cases hf : (s.declared.insert id).1 with
    | false =>
      rw [hf] at htake
      simp only [Context.use, Body.lookup, hv, hk, meets_bind, meets_lift, meets_declare, hf,
        if_true, Bool.false_eq_true, if_false, meets_pure, meets_record]
      exact ⟨trivial, htake s.events⟩
    | true =>
      rw [hf] at htake
      simp only [Context.use, Body.lookup, hv, hk, meets_bind, meets_lift, meets_declare, hf,
        if_true, meets_report, meets_pure, meets_record]
      exact ⟨trivial, htake _⟩
  · simp only [Context.use, Body.lookup, hv, hk, meets_bind, meets_lift,
      if_false, Bool.false_eq_true, meets_pure, meets_record]
    exact ⟨trivial, .useOther hv hk s.events⟩

theorem meets_use_of_declared {id : VariableId} {v : Variable} {s : Scope}
    (hv : c.body.vars.get? id = some v)
    (h : v.kind = .localVar → s.declared.contains id = true) :
    Meets s (c.use id) (fun a t => a = ⟨id, v.name, v.type, false⟩ ∧ t.declared = s.declared)
      fun _ _ => False := by
  have hlookup : c.body.lookup id = .ok v := by rw [Body.lookup, hv]
  by_cases hk : v.kind = .localVar
  · have hnull : id.isNull = false := (Arena.get?_eq_some_iff.mp hv).2.1
    have hfirst : (s.declared.insert id).1 = false := by
      rw [KeySet.insert_fst, hnull, h hk]
      rfl
    have hsame : (s.declared.insert id).2 = s.declared := KeySet.insert_of_contains (h hk)
    simp [Context.use, hlookup, hk, hfirst, hsame]
  · simp [Context.use, hlookup, hk]

theorem takes_bind {id : VariableId} {v : Variable}
    (hv : c.body.vars.get? id = some v) (s : Scope) :
    Meets s (c.bind id) (fun a t => a.id = id ∧ Takes c.body s (.bind a) t) fun _ _ => False := by
  simp only [Context.bind, Body.lookup, hv, meets_bind, meets_lift, meets_declare, meets_record,
    meets_pure]
  exact ⟨trivial, .bind hv s.events⟩

theorem resolves_use (id : VariableId) :
    Resolves c A (c.use id) fun v vs => vs = [.use v] := by
  intro s
  cases hv : c.body.vars.get? id with
  | none =>
    rw [Context.use_of_none hv]
    exact ⟨[], rfl, .refl s, .variable id⟩
  | some v =>
    refine (takes_use hv s).mono ?_ fun _ _ => False.elim
    rintro a t ⟨-, ht⟩
    exact ⟨_, rfl, .of_takes ht, rfl⟩

theorem resolves_bind (id : VariableId) :
    Resolves c A (c.bind id) fun v vs => vs = [.bind v] := by
  intro s
  cases hv : c.body.vars.get? id with
  | none =>
    rw [Context.bind_of_none hv]
    exact ⟨[], rfl, .refl s, .variable id⟩
  | some v =>
    refine (takes_bind hv s).mono ?_ fun _ _ => False.elim
    rintro a t ⟨-, ht⟩
    exact ⟨_, rfl, .of_takes ht, rfl⟩

theorem resolves_report (e : Event) : Resolves c A (report e) fun _ vs => vs = [] :=
  fun _ => ⟨[], rfl, .nil, rfl⟩

theorem resolves_members {cls : κ} (hcls : A cls) :
    Resolves c A (outside (c.view cls).members) fun _ vs => vs = [] := by
  intro s
  refine meets_outside (fun _ _ => ⟨[], rfl, .nil, rfl⟩) fun e _ he => ?_
  exact ⟨[], rfl, .nil, .members s.events hcls he⟩

theorem resolves_resolveAll {es : List (Expr VariableId κ)}
    (h : ∀ e ∈ es, Resolves c A (e.resolve c) fun code vs => vs = code.visits) :
    Resolves c A (Expr.resolveAll c es) fun codes vs => vs = Expr.allVisits codes := by
  induction es with
  | nil => exact .pure rfl
  | cons e es ih =>
    rw [Expr.resolveAll]
    refine (h e List.mem_cons_self).bind fun code vs hvs => ?_
    refine (ih fun x hx => h x (List.mem_cons_of_mem e hx)).bind fun codes us hus => ?_
    exact .pure (by simp [Expr.allVisits, hvs, hus])

/-- An expression is resolved with the visits of its code. -/
theorem resolves_expr {e : Expr VariableId κ} (h : ∀ cls ∈ e.classes, A cls) :
    Resolves c A (e.resolve c) fun code vs => vs = code.visits := by
  have hall {es : List (Expr VariableId κ)} (hes : ∀ cls ∈ Expr.allClasses es, A cls)
      (ih : ∀ e ∈ es, (∀ cls ∈ e.classes, A cls) →
        Resolves c A (e.resolve c) fun code vs => vs = code.visits) :
      Resolves c A (Expr.resolveAll c es) fun codes vs => vs = Expr.allVisits codes :=
    resolves_resolveAll fun e he => ih e he fun cls hcls =>
      hes cls (Expr.mem_allClasses.mpr ⟨e, he, hcls⟩)
  induction e using Expr.induct with
  | const value => exact .pure rfl
  | binary op l r ihl ihr =>
    simp only [Expr.classes, List.mem_append, or_imp, forall_and] at h
    rw [Expr.resolve]
    refine (ihl h.1).bind fun l' vs hl => (ihr h.2).bind fun r' us hr => .pure ?_
    simp [Expr.visits, hl, hr]
  | unary op e ih =>
    rw [Expr.resolve]
    refine (ih h).bind fun e' vs he => .pure ?_
    simp [Expr.visits, he]
  | ternary e l r ihe ihl ihr =>
    simp only [Expr.classes, List.mem_append, or_imp, forall_and] at h
    rw [Expr.resolve]
    refine (ihe h.1.1).bind fun e' vs he => (ihl h.1.2).bind fun l' us hl =>
      (ihr h.2).bind fun r' ws hr => .pure ?_
    simp [Expr.visits, he, hl, hr]
  | field owner name ih =>
    rw [Expr.resolve]
    refine (ih h).bind fun owner' vs ho => .pure ?_
    simp [Expr.visits, ho]
  | staticField qualifier name => exact .pure rfl
  | var id =>
    rw [Expr.resolve]
    refine (resolves_use id).bind fun v vs hv => .pure ?_
    simp [Expr.visits, hv]
  | call receiver checked function args ih iha =>
    simp only [Expr.classes, List.mem_append, or_imp, forall_and] at h
    rw [Expr.resolve]
    split
    · refine (hall h.2 iha).bind fun args' vs ha => .pure ?_
      simp [Expr.visits, ha]
    · refine (ih h.1).bind fun receiver' vs hr => (hall h.2 iha).bind fun args' us ha => .pure ?_
      simp [Expr.visits, hr, ha]
  | apply function args iha =>
    rw [Expr.resolve]
    refine (hall h iha).bind fun args' vs ha => .pure ?_
    simp [Expr.visits, ha]
  | create cls args iha =>
    rw [Expr.resolve]
    refine (hall h iha).bind fun args' vs ha => .pure ?_
    simp [Expr.visits, ha]
  | createArray element dimensions initializer ihd ihi =>
    cases initializer with
    | none =>
      rw [Expr.resolve]
      refine (hall h ihd).bind fun ds vs hds => .pure ?_
      simp [Expr.visits, hds]
    | some elements =>
      simp only [Expr.classes, List.mem_append, or_imp, forall_and] at h
      rw [Expr.resolve]
      refine (hall h.2 (ihi elements rfl)).bind fun es vs hes => .pure ?_
      simp [Expr.visits, hes]
  | length array ih =>
    rw [Expr.resolve]
    refine (ih h).bind fun array' vs ha => .pure ?_
    simp [Expr.visits, ha]
  | index array position iha ihp =>
    simp only [Expr.classes, List.mem_append, or_imp, forall_and] at h
    rw [Expr.resolve]
    refine (iha h.1).bind fun array' vs ha => (ihp h.2).bind fun position' us hp => .pure ?_
    simp [Expr.visits, ha, hp]
  | cast type e ih =>
    rw [Expr.resolve]
    refine (ih h).bind fun e' vs he => .pure ?_
    simp [Expr.visits, he]
  | instanceOf e type inverted ih =>
    rw [Expr.resolve]
    refine (ih h).bind fun e' vs he => .pure ?_
    simp [Expr.visits, he]
  | stepBefore step target ih =>
    rw [Expr.resolve]
    refine (ih h).bind fun target' vs ht => .pure ?_
    simp [Expr.visits, ht]
  | stepAfter step target ih =>
    rw [Expr.resolve]
    refine (ih h).bind fun target' vs ht => .pure ?_
    simp [Expr.visits, ht]
  | compound op target amount iht iha =>
    simp only [Expr.classes, List.mem_append, or_imp, forall_and] at h
    rw [Expr.resolve]
    split
    · exact .throw_bind (.compound op)
    · refine (iht h.1).bind fun target' vs ht => (iha h.2).bind fun amount' us ha => .pure ?_
      simp [Expr.visits, ht, ha]
  | anonymous cls args iha =>
    simp only [Expr.classes, List.mem_cons, forall_eq_or_imp] at h
    have hmembers (args' : List ExprCode) : Resolves c A (do
        let members ← outside (c.view cls).members
        return Expr.anonymous ⟨(c.view cls).interface, (c.view cls).superclass, members⟩ args')
        fun (code : ExprCode) us => Expr.allVisits args' ++ us = code.visits :=
      (resolves_members h.1).bind fun members vs hm => .pure (by simp [Expr.visits, hm])
    rw [Expr.resolve]
    split
    · exact (Resolves.pure (P := fun args' vs => vs = Expr.allVisits args') rfl).bind
        fun args' vs ha => ha ▸ hmembers args'
    · exact (hall h.2 iha).bind fun args' vs ha => ha ▸ hmembers args'

theorem resolves_stmt {stmt : Stmt VariableId κ} (h : ∀ cls ∈ stmt.classes, A cls) :
    Resolves c A (stmt.resolve c) fun code vs => vs = code.visits := by
  cases stmt with
  | eval e =>
    have heval : Resolves c A (do return StmtCode.plain (.eval (← e.resolve c)))
        fun code vs => vs = code.visits :=
      (resolves_expr h).bind fun e' vs he => .pure (by simp [StmtCode.visits, he])
    cases e with
    | compound op target amount =>
      simp only [Stmt.classes, Expr.classes, List.mem_append, or_imp, forall_and] at h
      rw [Stmt.resolve]
      split
      · refine (resolves_expr h.1).bind fun target' vs ht => (resolves_expr h.1).bind
          fun again us hu => (resolves_expr h.2).bind fun amount' ws ha => .pure ?_
        simp [StmtCode.visits, ht, hu, ha]
      · exact heval
    | _ => exact heval
  | assign target value =>
    simp only [Stmt.classes, List.mem_append, or_imp, forall_and] at h
    rw [Stmt.resolve]
    refine (resolves_expr h.1).bind fun target' vs ht => (resolves_expr h.2).bind
      fun value' us hv => .pure ?_
    simp [StmtCode.visits, ht, hv]
  | ret value explicit =>
    cases value with
    | none => exact .pure rfl
    | some e =>
      rw [Stmt.resolve]
      exact (resolves_expr h).bind fun e' vs he => .pure (by simp [StmtCode.visits, he])
  | throw e =>
    rw [Stmt.resolve]
    exact (resolves_expr h).bind fun e' vs he => .pure (by simp [StmtCode.visits, he])

end Unparse
