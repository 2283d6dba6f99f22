import Unparse.Print.Expr
import Unparse.Proofs.Walk.Resolve

/-! # Faults of expressions

Two kinds of nodes cannot be printed: variables that the body does not have, and
compound assignments that the language has no operator for. Without anonymous
classes an expression fails for the first of them among its printed nodes, and for
nothing else. A compound assignment that is a whole statement is restated instead
if its target may be written twice.
-/

namespace Unparse

open Walking

variable {κ α β : Type}

namespace Walking

def FailsWith (w : Walking α) (s : Scope) (err : PrintError) : Prop :=
  ∃ t, w.run.run s = (.error err, t)

def Succeeds (w : Walking α) (s : Scope) : Prop := ∃ a t, w.run.run s = (.ok a, t)

/-- Whatever scope it starts from, the traversal ends with this error, or with a
result if there is none. -/
def HasFault (w : Walking α) (fault : Option PrintError) : Prop :=
  ∀ s, Meets s w (fun _ _ => fault = none) fun err _ => fault = some err

namespace HasFault

variable {w : Walking α} {f : α → Walking β} {x y : Option PrintError} {s : Scope}

theorem pure {a : α} : HasFault (Pure.pure a : Walking α) none := fun _ => rfl

theorem throw_bind {err : PrintError} : HasFault ((throw err : Walking α) >>= f) (some err) :=
  fun _ => rfl

theorem bind (hw : HasFault w x) (hf : ∀ a, HasFault (f a) y) : HasFault (w >>= f) (x.or y) := by
  intro s
  rw [meets_bind]
  refine (hw s).mono (fun a s' hx => ?_) fun err _ hx => ?_
  · rw [hx, Option.none_or]
    exact hf a s'
  · rw [hx, Option.some_or]

theorem map {g : α → β} (hw : HasFault w x) : HasFault (do return g (← w)) x := by
  simpa using hw.bind (y := none) fun _ => .pure

theorem failsWith_iff (hw : HasFault w x) {err : PrintError} :
    w.FailsWith s err ↔ x = some err := by
  constructor
  · rintro ⟨t, hrun⟩
    exact (hw s).failure hrun
  · rintro rfl
    rcases hrun : w.run.run s with ⟨err' | a, t⟩
    · cases (hw s).failure hrun
      exact ⟨t, hrun⟩
    · cases (hw s).result hrun

theorem succeeds_iff (hw : HasFault w x) : w.Succeeds s ↔ x = none := by
  constructor
  · rintro ⟨a, t, hrun⟩
    exact (hw s).result hrun
  · rintro rfl
    rcases hrun : w.run.run s with ⟨err | a, t⟩
    · cases (hw s).failure hrun
    · exact ⟨a, t, hrun⟩

end HasFault

end Walking

namespace Expr

mutual

/-- The nodes of an expression that are printed, each before its parts and these from
left to right. The receiver of a call on `this` is not, nor are the dimensions of an
array with an initializer. -/
def nodes (b : Body κ) : Expr VariableId κ → List (Expr VariableId κ)
  | const value => [const value]
  | binary op l r => binary op l r :: (l.nodes b ++ r.nodes b)
  | unary op e => unary op e :: e.nodes b
  | ternary e l r => ternary e l r :: (e.nodes b ++ (l.nodes b ++ r.nodes b))
  | field owner name => field owner name :: owner.nodes b
  | staticField qualifier name => [staticField qualifier name]
  | var id => [var id]
  | call receiver checked function args =>
    call receiver checked function args ::
      ((if b.isThis receiver then [] else receiver.nodes b) ++ allNodes b args)
  | apply function args => apply function args :: allNodes b args
  | create cls args => create cls args :: allNodes b args
  | createArray element dimensions none =>
    createArray element dimensions none :: allNodes b dimensions
  | createArray element dimensions (some elements) =>
    createArray element dimensions (some elements) :: allNodes b elements
  | length array => length array :: array.nodes b
  | index array position => index array position :: (array.nodes b ++ position.nodes b)
  | cast type e => cast type e :: e.nodes b
  | instanceOf e type inverted => instanceOf e type inverted :: e.nodes b
  | stepBefore step target => stepBefore step target :: target.nodes b
  | stepAfter step target => stepAfter step target :: target.nodes b
  | compound op target amount => compound op target amount :: (target.nodes b ++ amount.nodes b)
  | anonymous cls args => anonymous cls args :: allNodes b args

def allNodes (b : Body κ) : List (Expr VariableId κ) → List (Expr VariableId κ)
  | [] => []
  | e :: es => e.nodes b ++ allNodes b es

end

variable {c : Context κ}

/-- What a node cannot be printed for, whatever its parts are. -/
def fault? (c : Context κ) : Expr VariableId κ → Option PrintError
  | var id => if (c.body.vars.get? id).isNone then some (.unknownVariable id) else none
  | compound op _ _ =>
    if (c.target.compoundToken? op).isNone then some (.unexpandableCompound op) else none
  | _ => none

def firstFault? (c : Context κ) (e : Expr VariableId κ) : Option PrintError :=
  (e.nodes c.body).findSome? (fault? c)

def firstFaultIn? (c : Context κ) (es : List (Expr VariableId κ)) : Option PrintError :=
  (allNodes c.body es).findSome? (fault? c)

theorem firstFault?_binary (op : BinaryOp) (l r : Expr VariableId κ) :
    (binary op l r).firstFault? c = (l.firstFault? c).or (r.firstFault? c) := by
  simp [firstFault?, nodes, fault?, List.findSome?_cons]

theorem firstFault?_ternary (e l r : Expr VariableId κ) :
    (ternary e l r).firstFault? c =
      (e.firstFault? c).or ((l.firstFault? c).or (r.firstFault? c)) := by
  simp [firstFault?, nodes, fault?, List.findSome?_cons]

theorem firstFault?_call (receiver : Expr VariableId κ) (checked : Bool) (function : String)
    (args : List (Expr VariableId κ)) :
    (call receiver checked function args).firstFault? c =
      if c.body.isThis receiver then firstFaultIn? c args
      else (receiver.firstFault? c).or (firstFaultIn? c args) := by
  split <;> simp [firstFault?, firstFaultIn?, nodes, fault?, List.findSome?_cons, *]

theorem firstFault?_index (array position : Expr VariableId κ) :
    (index array position).firstFault? c =
      (array.firstFault? c).or (position.firstFault? c) := by
  simp [firstFault?, nodes, fault?, List.findSome?_cons]

theorem firstFault?_compound (op : BinaryOp) (target amount : Expr VariableId κ) :
    (compound op target amount).firstFault? c =
      if (c.target.compoundToken? op).isNone then some (.unexpandableCompound op)
      else (target.firstFault? c).or (amount.firstFault? c) := by
  split <;> simp [firstFault?, nodes, fault?, *]

@[simp] theorem firstFaultIn?_nil : firstFaultIn? c [] = none := by
  simp [firstFaultIn?, allNodes]

@[simp] theorem firstFaultIn?_cons (e : Expr VariableId κ) (es : List (Expr VariableId κ)) :
    firstFaultIn? c (e :: es) = (e.firstFault? c).or (firstFaultIn? c es) := by
  simp [firstFaultIn?, firstFault?, allNodes]

theorem allClasses_eq_nil {es : List (Expr VariableId κ)} :
    allClasses es = [] ↔ ∀ e ∈ es, e.classes = [] := by
  induction es with
  | nil => simp [allClasses]
  | cons e es ih => simp [allClasses, ih]

theorem hasFault_resolveAll {es : List (Expr VariableId κ)}
    (h : ∀ e ∈ es, HasFault (e.resolve c) (e.firstFault? c)) :
    HasFault (resolveAll c es) (firstFaultIn? c es) := by
  induction es with
  | nil => simpa [resolveAll] using HasFault.pure
  | cons e es ih =>
    rw [resolveAll, firstFaultIn?_cons]
    exact (h e List.mem_cons_self).bind fun _ =>
      (ih fun x hx => h x (List.mem_cons_of_mem e hx)).map

end Expr

variable {c : Context κ}

theorem hasFault_use (id : VariableId) : HasFault (c.use id) ((Expr.var id).firstFault? c) := by
  intro s
  cases hv : c.body.vars.get? id with
  | none =>
    rw [Context.use_of_none hv]
    simp [Expr.firstFault?, Expr.nodes, Expr.fault?, hv]
  | some v =>
    refine (takes_use hv s).mono (fun _ _ _ => ?_) fun _ _ => False.elim
    simp [Expr.firstFault?, Expr.nodes, Expr.fault?, hv]

/-- An expression without anonymous classes fails for its first fault. -/
theorem hasFault_expr {e : Expr VariableId κ} (h : e.classes = []) :
    HasFault (e.resolve c) (e.firstFault? c) := by
  have hall {es : List (Expr VariableId κ)} (hes : Expr.allClasses es = [])
      (ih : ∀ e ∈ es, e.classes = [] → HasFault (e.resolve c) (e.firstFault? c)) :
      HasFault (Expr.resolveAll c es) (Expr.firstFaultIn? c es) :=
    Expr.hasFault_resolveAll fun e he => ih e he (Expr.allClasses_eq_nil.mp hes e he)
  induction e using Expr.induct with
  | const value => exact .pure
  | binary op l r ihl ihr =>
    simp only [Expr.classes, List.append_eq_nil_iff] at h
    rw [Expr.resolve, Expr.firstFault?_binary]
    exact (ihl h.1).bind fun _ => (ihr h.2).map
  | unary op e ih => exact (ih h).map
  | ternary e l r ihe ihl ihr =>
    simp only [Expr.classes, List.append_eq_nil_iff] at h
    rw [Expr.resolve, Expr.firstFault?_ternary]
    exact (ihe h.1.1).bind fun _ => (ihl h.1.2).bind fun _ => (ihr h.2).map
  | field owner name ih => exact (ih h).map
  | staticField qualifier name => exact .pure
  | var id => exact (hasFault_use id).map
  | call receiver checked function args ih iha =>
    simp only [Expr.classes, List.append_eq_nil_iff] at h
    rw [Expr.resolve, Expr.firstFault?_call]
    split
    · exact (hall h.2 iha).map
    · exact (ih h.1).bind fun _ => (hall h.2 iha).map
  | apply function args iha => exact (hall h iha).map
  | create cls args iha => exact (hall h iha).map
  | createArray element dimensions initializer ihd ihi =>
    cases initializer with
    | none => exact (hall h ihd).map
    | some elements =>
      simp only [Expr.classes, List.append_eq_nil_iff] at h
      exact (hall h.2 (ihi elements rfl)).map
  | length array ih => exact (ih h).map
  | index array position iha ihp =>
    simp only [Expr.classes, List.append_eq_nil_iff] at h
    rw [Expr.resolve, Expr.firstFault?_index]
    exact (iha h.1).bind fun _ => (ihp h.2).map
  | cast type e ih => exact (ih h).map
  | instanceOf e type inverted ih => exact (ih h).map
  | stepBefore step target ih => exact (ih h).map
  | stepAfter step target ih => exact (ih h).map
  | compound op target amount iht iha =>
    simp only [Expr.classes, List.append_eq_nil_iff] at h
    rw [Expr.resolve, Expr.firstFault?_compound]
    split
    · exact .throw_bind
    · exact (iht h.1).bind fun _ => (iha h.2).map
  | anonymous cls args => simp [Expr.classes] at h

/-- What a whole statement that evaluates an expression fails for: a compound assignment
without operator is restated if its target may be written twice. -/
def Expr.statementFault? (c : Context κ) : Expr VariableId κ → Option PrintError
  | .compound op target amount =>
    if (c.target.compoundToken? op).isNone && target.isPure then
      (target.firstFault? c).or (amount.firstFault? c)
    else (compound op target amount).firstFault? c
  | e => e.firstFault? c

theorem hasFault_eval {e : Expr VariableId κ} (h : e.classes = []) :
    HasFault ((Stmt.eval e).resolve c) (e.statementFault? c) := by
  cases e with
  | compound op target amount =>
    rw [Stmt.resolve, Expr.statementFault?]
    split
    · simp only [Expr.classes, List.append_eq_nil_iff] at h
      have hagain : ((target.firstFault? c).or (amount.firstFault? c)) =
          (target.firstFault? c).or ((target.firstFault? c).or (amount.firstFault? c)) := by
        cases target.firstFault? c <;> rfl
      rw [hagain]
      exact (hasFault_expr h.1).bind fun _ =>
        (hasFault_expr h.1).bind fun _ => (hasFault_expr h.2).map
    · exact (hasFault_expr h).map
  | _ => exact (hasFault_expr h).map

theorem Expr.statementFault?_compound {op : BinaryOp} {target amount : Expr VariableId κ}
    (hop : c.target.compoundToken? op = none) :
    (compound op target amount).statementFault? c = none ↔
      target.isPure ∧ target.firstFault? c = none ∧ amount.firstFault? c = none := by
  rw [statementFault?, firstFault?_compound, hop]
  cases target.isPure <;> simp

/-- An expression without anonymous classes fails exactly if one of its printed nodes is
at fault, a variable that the body does not have or a compound assignment without
operator, and then for the first one. A compound assignment without operator is a
statement nevertheless if its target may be written twice, and both target and amount
are printed. -/
theorem fails_for_first_fault (c : Context κ) (st : Style) (s : Scope)
    {e : Expr VariableId κ} (h : e.classes = []) :
    (∀ err, FailsWith (do return (← e.resolve c).doc st) s err ↔
      ∃ before node after, e.nodes c.body = before ++ node :: after ∧
        (∀ n ∈ before, n.fault? c = none) ∧ node.fault? c = some err) ∧
    (Succeeds (do return (← e.resolve c).doc st) s ↔ ∀ n ∈ e.nodes c.body, n.fault? c = none) ∧
    (∀ op target amount, e = .compound op target amount → c.target.compoundToken? op = none →
      (Succeeds ((Stmt.eval e).resolve c) s ↔
        target.isPure ∧ Succeeds (target.resolve c) s ∧ Succeeds (amount.resolve c) s)) ∧
    ∀ err, FailsWith ((Stmt.eval e).resolve c) s err ↔ e.statementFault? c = some err := by
  have hexpr : HasFault (do return (← e.resolve c).doc st) (e.firstFault? c) :=
    (hasFault_expr h).map
  refine ⟨fun err => ?_, ?_, ?_, fun err => (hasFault_eval h).failsWith_iff⟩
  · rw [hexpr.failsWith_iff, Expr.firstFault?, List.findSome?_eq_some_iff]
    simp only [and_comm, and_left_comm]
  · rw [hexpr.succeeds_iff, Expr.firstFault?, List.findSome?_eq_none_iff]
  · rintro op target amount rfl hop
    have hparts := h
    simp only [Expr.classes, List.append_eq_nil_iff] at hparts
    rw [(hasFault_eval h).succeeds_iff, Expr.statementFault?_compound hop,
      (hasFault_expr hparts.1).succeeds_iff, (hasFault_expr hparts.2).succeeds_iff]

namespace Faults

def counter : Context Empty where
  target := .kotlin
  body :=
    { vars := ⟨[⟨1, some (.this "Counter")⟩, ⟨1, some ⟨"x", "int", .localVar⟩⟩], []⟩ }
  view := nofun

def masking : Expr VariableId Empty :=
  .call (.var ⟨1, 1⟩) false "f"
    [.createArray "int" [.var ⟨9, 1⟩] (some []), .compound .bitAnd (.var ⟨2, 1⟩) (.var ⟨9, 1⟩)]

end Faults

open Faults (counter masking) in
theorem fails_for_first_fault_masking : masking.classes = [] ∧
    FailsWith (do return (← masking.resolve counter).doc ⟨.kotlin, 4⟩) {}
      (.unexpandableCompound .bitAnd) := by
  have hnodes : masking.nodes counter.body =
      [masking, .createArray "int" [.var ⟨9, 1⟩] (some [])] ++
        .compound .bitAnd (.var ⟨2, 1⟩) (.var ⟨9, 1⟩) :: [.var ⟨2, 1⟩, .var ⟨9, 1⟩] := rfl
  have hbefore : ∀ n ∈ [masking, .createArray "int" [.var ⟨9, 1⟩] (some [])],
      n.fault? counter = none := by
    intro n hn
    simp only [List.mem_cons, List.not_mem_nil, or_false] at hn
    rcases hn with rfl | rfl <;> rfl
  exact ⟨rfl, ((fails_for_first_fault counter ⟨.kotlin, 4⟩ {} rfl).1 _).mpr
    ⟨_, _, _, hnodes, hbefore, rfl⟩⟩

end Unparse
