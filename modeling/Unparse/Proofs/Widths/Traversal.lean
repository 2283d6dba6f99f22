import Unparse.Proofs.Widths.Documents

/-! # Where the code of a traversal breaks

If the members of anonymous classes are tame documents, then so are the expressions
of a traversal, and its chains are simple ones.
-/

namespace Unparse

open Layout (Doc)
open Layout.Doc (Tame)
open Walking

variable {κ : Type}

section Code

variable {c : Context κ} (s : Style)

theorem ensures_resolveAll {es : List (Expr VariableId κ)}
    (h : ∀ e ∈ es, Ensures (e.resolve c) fun code => (code.doc s).Tame) :
    Ensures (Expr.resolveAll c es) fun codes => ∀ d ∈ Expr.docs s codes, d.Tame := by
  induction es with
  | nil => exact .pure (by simp [Expr.docs])
  | cons e es ih =>
    refine (h e List.mem_cons_self).bind fun code hcode => ?_
    refine (ih fun x hx => h x (List.mem_cons_of_mem e hx)).map fun codes hcodes => ?_
    exact List.forall_mem_cons.mpr ⟨hcode, hcodes⟩

variable (hview : ∀ cls, Ensures (outside (c.view cls).members) Tame)
include hview

theorem ensures_resolve (e : Expr VariableId κ) :
    Ensures (e.resolve c) fun code => (code.doc s).Tame := by
  induction e using Expr.induct with
  | const value => exact .pure (.text _)
  | staticField qualifier name => exact .pure (.text _)
  | var id => exact (Ensures.trivial _).map fun v _ => .text _
  | unary op e ih => exact ih.map fun code h => tame_unary s h _ _
  | field e name ih =>
    exact ih.map fun code h => ((tame_owner s h _ _).append (.text _)).append (.text _)
  | length e ih => exact ih.map fun code h => (tame_owner s h _ _).append (.text _)
  | cast type e ih => exact ih.map fun code h => tame_cast s h _ _
  | instanceOf e type inverted ih => exact ih.map fun code h => tame_instanceOf s h _ _ _
  | stepBefore step e ih => exact ih.map fun code h => (Tame.text _).append (tame_owner s h _ _)
  | stepAfter step e ih => exact ih.map fun code h => (tame_owner s h _ _).append (.text _)
  | binary op l r ihl ihr => exact ihl.bind fun l hl => ihr.map fun r hr => tame_binary s hl hr op
  | compound op l r ihl ihr =>
    rw [Expr.resolve]
    split
    · exact Ensures.throw.bind (P := fun _ => False) fun _ => False.elim
    · exact ihl.bind fun l hl => ihr.map fun r hr => tame_compound s hl hr op
  | index l r ihl ihr =>
    refine ihl.bind fun l hl => ihr.map fun r hr => ?_
    simp only [Expr.doc]
    refine Tame.append ?_ (hr.enclosed _ _)
    split
    · exact hl.enclosed _ _
    · exact tame_owner s hl _ _
  | ternary e l r ihe ihl ihr =>
    exact ihe.bind fun e he => ihl.bind fun l hl => ihr.map fun r hr =>
      tame_ternary s he (tame_operand s hl _ _ _) (tame_operand s hr _ _ _)
  | call receiver checked function args ihr ihargs =>
    have hargs := ensures_resolveAll s ihargs
    rw [Expr.resolve]
    split
    · exact hargs.map fun codes h => (Tame.text _).append (tame_arguments s h)
    · exact ihr.bind fun receiver hr => hargs.map fun codes h =>
        (((tame_owner s hr _ _).append (.text _)).append (.text _)).append (tame_arguments s h)
  | apply function args ih =>
    exact (ensures_resolveAll s ih).map fun codes h => (Tame.text _).append (tame_arguments s h)
  | create cls args ih =>
    exact (ensures_resolveAll s ih).map fun codes h => (Tame.text _).append (tame_arguments s h)
  | createArray element dimensions initializer ihd ihi =>
    cases initializer with
    | none => exact (ensures_resolveAll s ihd).map fun codes h => tame_createArray s h element
    | some elements =>
      exact (ensures_resolveAll s (ihi elements rfl)).map fun codes h =>
        tame_createArray_elements s h element
  | anonymous cls args ih =>
    have hmembers (codes : List ExprCode) (h : ∀ d ∈ Expr.docs s codes, d.Tame) :
        Ensures (do
          let members ← outside (c.view cls).members
          return Expr.anonymous ⟨(c.view cls).interface, (c.view cls).superclass, members⟩ codes)
          fun (code : ExprCode) => (code.doc s).Tame :=
      (hview cls).map fun members hmembers => tame_anonymous s hmembers h
    rw [Expr.resolve]
    split
    · exact hmembers [] (by simp [Expr.docs])
    · exact (ensures_resolveAll s ih).bind hmembers

theorem ensures_simple_stmt (stmt : Stmt VariableId κ) :
    Ensures (stmt.resolve c) fun code => (code.bodyDoc s).Simple := by
  have hexpr := ensures_resolve s hview
  cases stmt with
  | eval e =>
    have heval : Ensures (do return StmtCode.plain (.eval (← e.resolve c)))
        fun code => (code.bodyDoc s).Simple := (hexpr e).map fun code h => h.simple
    cases e with
    | compound op target amount =>
      rw [Stmt.resolve]
      split
      · refine (hexpr target).bind fun target ht => (hexpr _).bind fun again hr =>
          (hexpr amount).map fun amount ha => ?_
        exact (((tame_operand s ht _ _ _).append (.text _)).append (tame_binary s hr ha op)).simple
      · exact heval
    | _ => exact heval
  | assign target value =>
    refine (hexpr target).bind fun target ht => (hexpr value).map fun value hv => ?_
    exact ((ht.append (.text _)).append (tame_continued s (tame_operand s hv _ _ _))).grouped.simple
  | ret value explicit =>
    cases value with
    | none => cases explicit <;> exact .pure (by simp [StmtCode.bodyDoc])
    | some e =>
      refine (hexpr e).map fun code h => ?_
      cases explicit <;> simp [StmtCode.bodyDoc, h.simple]
  | throw e =>
    exact (hexpr e).map fun code h => ((Tame.text _).append (tame_continued s h)).grouped.simple

theorem ensures_simple_unfoldWithin (n : Nat) (head : Option ConstructionId) :
    Ensures (c.unfoldWithin n head) fun code => (codeDoc s code).Simple := by
  induction n generalizing head with
  | zero =>
    cases head with
    | none => exact .pure Doc.simple_empty
    | some id => exact (Ensures.trivial _).bind fun _ _ => .throw
  | succ n ih =>
    cases head with
    | none => exact .pure Doc.simple_empty
    | some id =>
      refine (Ensures.trivial _).bind fun construction _ => (Ensures.trivial _).bind fun _ _ => ?_
      have hexpr (e : Expr VariableId κ) : Ensures (e.resolve c) fun code => (code.doc s).Simple :=
        (ensures_resolve s hview e).mono fun _ h => h.simple
      have hwalk (id : ConstructionId) := ih (some id)
      have helse (id : ConstructionId) :
          Ensures (c.elseBranch (fun branch => c.unfoldWithin n (some branch)) id)
            fun code => (codeDoc s code).Simple := by
        refine (Ensures.trivial _).bind fun follower _ => ?_
        cases follower with
        | none => exact hwalk id
        | some next =>
          refine (Ensures.trivial _).bind fun carrier _ => (hwalk next).map fun code hcode => ?_
          simp [codeDoc, simple_leadDoc, Element.doc, formDoc, simple_labelDoc, simple_jumpsDoc,
            Style.blockDoc, Doc.concat, hcode, apply_ite Doc.Simple]
      have hform := ensures_unfoldForm (V := fun _ _ => True) (fun _ => .trivial _)
        (fun skip => hexpr skip.negate) hexpr (ensures_simple_stmt s hview) hwalk helse
        construction.form
      refine hform.bind fun form hform => (ih construction.next).map fun rest hrest => ?_
      have hdoc := simple_formDoc s hform.each construction.place
      simp [codeDoc, simple_leadDoc, Element.doc, simple_labelDoc, simple_jumpsDoc, hdoc, hrest,
        apply_ite Doc.Simple]

end Code

end Unparse
