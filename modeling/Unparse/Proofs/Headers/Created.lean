import Unparse.Proofs.Failure.Traversal
import Unparse.Proofs.Walk.Ensures

/-! # Created classes in documents

What the members of the anonymous classes that a traversal comes to pass outward,
the document of its code has.
-/

namespace Unparse

open Layout (Doc)
open Layout.Doc (Outward)
open Walking

variable {κ : Type} {c : Context κ} {M : κ → Prop} {P : Doc → Prop} (s : Style)

theorem ensures_created_all {es : List (Expr VariableId κ)}
    (h : ∀ e ∈ es, Ensures (e.resolve c) fun code => Hits M (e.created c.drops) → P (code.doc s)) :
    Ensures (Expr.resolveAll c es) fun codes =>
      Hits M (Expr.allCreated c.drops es) → ∃ d ∈ Expr.docs s codes, P d := by
  induction es with
  | nil => exact .pure fun hnil => (hits_nil hnil).elim
  | cons e es ih =>
    refine (h e List.mem_cons_self).bind fun code hcode => ?_
    refine (ih fun x hx => h x (List.mem_cons_of_mem e hx)).map fun codes hcodes hhits => ?_
    rcases hits_append.1 hhits with hhits | hhits
    · exact ⟨_, List.mem_cons_self, hcode hhits⟩
    · obtain ⟨d, hd, hPd⟩ := hcodes hhits
      exact ⟨d, List.mem_cons_of_mem _ hd, hPd⟩

variable (hP : Outward P) (hview : ∀ cls, Ensures (outside (c.view cls).members) fun d => M cls → P d)
include hP hview

theorem ensures_created_resolve (e : Expr VariableId κ) :
    Ensures (e.resolve c) fun code => Hits M (e.created c.drops) → P (code.doc s) := by
  induction e using Expr.induct with
  | const value => exact .pure fun h => (hits_nil h).elim
  | staticField qualifier name => exact .pure fun h => (hits_nil h).elim
  | var id => exact (Ensures.trivial _).map fun _ _ h => (hits_nil h).elim
  | unary op e ih => exact ih.map fun code h hits => hP.unary s (h hits) _ _
  | field e name ih =>
    exact ih.map fun code h hits => hP.left _ (hP.left _ (hP.owner s (h hits) _ _))
  | length e ih => exact ih.map fun code h hits => hP.left _ (hP.owner s (h hits) _ _)
  | cast type e ih => exact ih.map fun code h hits => hP.cast s (h hits) _ _
  | instanceOf e type inverted ih => exact ih.map fun code h hits => hP.instanceOf s (h hits) _ _ _
  | stepBefore step e ih => exact ih.map fun code h hits => hP.right _ (hP.owner s (h hits) _ _)
  | stepAfter step e ih => exact ih.map fun code h hits => hP.left _ (hP.owner s (h hits) _ _)
  | binary op l r ihl ihr =>
    exact ihl.bind fun l hl => ihr.map fun r hr hits =>
      hP.binary s ((hits_append.1 hits).imp hl hr) op
  | compound op l r ihl ihr =>
    rw [Expr.resolve]
    split
    · exact Ensures.throw.bind (P := fun _ => False) fun _ => False.elim
    · exact ihl.bind fun l hl => ihr.map fun r hr hits =>
        hP.compound s ((hits_append.1 hits).imp hl hr) op
  | index l r ihl ihr =>
    exact ihl.bind fun l hl => ihr.map fun r hr hits => hP.index s ((hits_append.1 hits).imp hl hr)
  | ternary e l r ihe ihl ihr =>
    refine ihe.bind fun e he => ihl.bind fun l hl => ihr.map fun r hr hits => hP.ternary s ?_
    have hparts := (hits_append.1 hits).imp_right hits_append.1
    exact hparts.imp he (Or.imp (fun h => hP.operand s (hl h) _ _ _)
      fun h => hP.operand s (hr h) _ _ _)
  | call receiver checked function args ihr ihargs =>
    have hargs := ensures_created_all s ihargs
    rw [Expr.resolve]
    split
    · next hthis =>
      refine hargs.map fun codes h hits => hP.right _ (hP.arguments s (h ?_))
      simpa [Expr.created, created_of_isThis hthis] using hits
    · exact ihr.bind fun receiver hr => hargs.map fun codes h hits =>
        hP.call s ((hits_append.1 hits).imp hr h) _ _
  | apply function args ih =>
    exact (ensures_created_all s ih).map fun codes h hits => hP.right _ (hP.arguments s (h hits))
  | create cls args ih =>
    exact (ensures_created_all s ih).map fun codes h hits => hP.right _ (hP.arguments s (h hits))
  | createArray element dimensions initializer ihd ihi =>
    cases initializer with
    | none =>
      exact (ensures_created_all s ihd).map fun codes h hits => hP.createArray s (h hits) element
    | some elements =>
      exact (ensures_created_all s (ihi elements rfl)).map fun codes h hits =>
        hP.createArray_elements s (h hits) element
  | anonymous cls args ih =>
    have hmembers (codes : List ExprCode)
        (h : c.drops cls = false → Hits M (Expr.allCreated c.drops args) →
          ∃ d ∈ Expr.docs s codes, P d) :
        Ensures (do
          let members ← outside (c.view cls).members
          return Expr.anonymous ⟨(c.view cls).interface, (c.view cls).superclass, members⟩ codes)
          fun (code : ExprCode) =>
            Hits M ((Expr.anonymous cls args).created c.drops) → P (code.doc s) := by
      refine (hview cls).map fun members hmembers hits => hP.anonymous s ?_
      rcases hits_append.1 hits with hits | hits
      · cases hdrops : c.drops cls with
        | true => simp [hdrops] at hits
        | false =>
          rw [hdrops] at hits
          exact .inl ⟨by simpa [Context.drops] using hdrops, h hdrops hits⟩
      · exact .inr (hmembers (by simpa using hits))
    rw [Expr.resolve]
    split
    · next hdrops => exact hmembers [] fun hkeeps => by simp [Context.drops, hdrops] at hkeeps
    · exact (ensures_created_all s ih).bind fun codes h => hmembers codes fun _ => h

theorem ensures_created_stmt (stmt : Stmt VariableId κ) :
    Ensures (stmt.resolve c) fun code => Hits M (stmt.created c.drops) → P (code.bodyDoc s) := by
  have hexpr := ensures_created_resolve s hP hview
  cases stmt with
  | eval e =>
    have heval : Ensures (do return StmtCode.plain (.eval (← e.resolve c)))
        fun code => Hits M (e.created c.drops) → P (code.bodyDoc s) := (hexpr e).map fun _ h => h
    cases e with
    | compound op target amount =>
      rw [Stmt.resolve]
      split
      · refine (hexpr target).bind fun target ht => (hexpr _).bind fun again _ =>
          (hexpr amount).map fun amount ha hits => ?_
        rcases hits_append.1 hits with hits | hits
        · exact hP.left _ (hP.left _ (hP.operand s (ht hits) _ _ _))
        · exact hP.right _ (hP.binary s (.inr (ha hits)) op)
      · exact heval
    | _ => exact heval
  | assign target value =>
    refine (hexpr target).bind fun target ht => (hexpr value).map fun value hv hits => hP.grouped ?_
    rcases hits_append.1 hits with hits | hits
    · exact hP.left _ (hP.left _ (ht hits))
    · exact hP.right _ (hP.continued s (hP.operand s (hv hits) _ _ _))
  | ret value explicit =>
    cases value with
    | none => exact .pure fun h => (hits_nil h).elim
    | some e =>
      refine (hexpr e).map fun code h hits => ?_
      cases explicit with
      | true => exact hP.right _ (h hits)
      | false => exact h hits
  | throw e => exact (hexpr e).map fun code h hits => hP.grouped (hP.right _ (hP.continued s (h hits)))

omit hP hview in
theorem ensures_created_elseBranch {walk : ConstructionId → Walking Code}
    (hwalk : ∀ id, Ensures (walk id) fun code =>
      c.Creates M (some id) → ∃ e ∈ code, P (e.doc s)) (id : ConstructionId) :
    Ensures (c.elseBranch walk id) fun code =>
      c.Creates M (some id) → ∃ e ∈ code, P (e.doc s) := by
  refine (Ensures.lift (x := c.elseIf? id)).bind fun follower helse => ?_
  cases follower with
  | none => exact hwalk id
  | some next =>
    obtain ⟨carrier, hget, hempty, hnext⟩ := Context.carrier_of_elseIf? helse
    refine (Ensures.trivial _).bind fun _ _ => (hwalk next).map fun code h hcreates => ?_
    have hrest : c.Creates M (some next) := by
      have hcases := hcreates.next hget
      rw [carrier.form_of_isEmptyBlock hempty, hnext] at hcases
      simpa [Form.created, Form.branches] using hcases
    obtain ⟨e, he, h⟩ := h hrest
    exact ⟨e, List.mem_cons_of_mem _ he, h⟩

omit hP hview in
/-- What is created in a control structure is created in some part of it. -/
theorem Form.some_of_created {B : ConstructionId → Prop} {drops : κ → Bool}
    {form : Form VariableId (Expr VariableId κ) (Stmt VariableId κ) ConstructionId}
    (h : Hits M (form.created drops) ∨ Hits B form.branches) :
    form.Some (fun e => Hits M (e.created drops)) (fun stmt => Hits M (stmt.created drops)) B := by
  have hoption {α : Type} {R : α → Prop} {o : Option α} : Hits R o.toList ↔ ∃ a ∈ o, R a := by
    simp [Hits]
  cases form with
  | select e arms fallback =>
    simp only [created, branches, hits_append, hits_flatMap, hits_map, hoption] at h
    rw [Form.Some]
    rcases h with (⟨arm, hmem, h⟩ | h) | ⟨arm, hmem, h⟩ | h
    · exact .inr (.inl ⟨arm, hmem, .inl h⟩)
    · exact .inl h
    · exact .inr (.inl ⟨arm, hmem, .inr h⟩)
    · exact .inr (.inr h)
  | _ =>
    simp only [created, branches, hits_append, hits_flatMap, hits_map, hoption, hits_cons,
      hits_nil, or_false, false_or, or_assoc] at h
    exact h

theorem ensures_created_unfoldWithin (n : Nat) (head : Option ConstructionId) :
    Ensures (c.unfoldWithin n head) fun code => c.Creates M head → ∃ e ∈ code, P (e.doc s) := by
  induction n generalizing head with
  | zero =>
    cases head with
    | none => exact .pure fun h => (not_creates_none h).elim
    | some id => exact (Ensures.trivial _).bind fun _ _ => .throw
  | succ n ih =>
    cases head with
    | none => exact .pure fun h => (not_creates_none h).elim
    | some id =>
      refine (ensures_enter c.body id).bind fun construction hget =>
        (Ensures.trivial _).bind fun _ _ => ?_
      have hexpr := ensures_created_resolve s hP hview
      have hguard (skip : Expr VariableId κ) : Ensures (c.guard skip) fun code =>
          Hits M (skip.created c.drops) → P (code.doc s) := by
        have hnegate := hexpr skip.negate
        rwa [Expr.created_negate] at hnegate
      have hwalk (id : ConstructionId) := ih (some id)
      have hform := ensures_unfoldForm (V := fun _ _ => True) (fun _ => .trivial _) hguard hexpr
        (ensures_created_stmt s hP hview) hwalk (ensures_created_elseBranch s hwalk)
        construction.form
      refine hform.bind fun form hform => (ih construction.next).map fun rest hrest hcreates => ?_
      rcases or_assoc.2 (hcreates.next hget) with hhere | hnext
      · refine ⟨_, List.mem_cons_self, hP.element s (hP.form s construction.place ?_)⟩
        exact hform.some (Form.some_of_created hhere)
      · obtain ⟨e, he, h⟩ := hrest hnext
        exact ⟨e, List.mem_cons_of_mem _ he, h⟩

end Unparse
