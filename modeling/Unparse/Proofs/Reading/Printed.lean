import Unparse.Print.Render
import Unparse.Proofs.Reading.Line
import Unparse.Proofs.Reading.Regrouping
import Unparse.Proofs.Reading.Resolved

/-! # Printing and reading back

The document of readable code has no line break that it could not give up. On a
page that is wide enough the text is that of its tokens, which are read as the
expression with its chains of one operator grouped to the left.
-/

namespace Unparse

open Layout (Doc)

namespace Reading

theorem isLine_doc {s : Style} {e : ExprCode} {g : Bool}
    (h : isReadable s.target (isBare s.target) (fun _ => false) e = true) :
    (e.doc s).IsLine g := by
  have hall {es : List ExprCode}
      (hes : ∀ e ∈ es, isReadable s.target (isBare s.target) (fun _ => false) e = true)
      (ih : ∀ e ∈ es, ∀ {g},
        isReadable s.target (isBare s.target) (fun _ => false) e = true → (e.doc s).IsLine g) :
      ∀ d ∈ Expr.docs s es, ∀ g, d.IsLine g := by
    rw [Expr.docs_eq_map]
    intro d hd g
    obtain ⟨e, he, rfl⟩ := List.mem_map.mp hd
    exact ih e he (hes e he)
  induction e using Expr.induct generalizing g with
  | const value => simp [Expr.doc]
  | binary op l r ihl ihr =>
    simp only [isReadable, Bool.and_eq_true] at h
    simp [Expr.doc, ihl h.1, ihr h.2]
  | unary op e ih => simp [Expr.doc, ih h]
  | ternary e l r ihe ihl ihr =>
    simp only [isReadable, Bool.and_eq_true] at h
    simp [Expr.doc, ihe h.1.1, ihl h.1.2, ihr h.2]
  | field owner name ih =>
    simp only [isReadable, Bool.and_eq_true] at h
    simp [Expr.doc, ih h.1]
  | staticField qualifier name => simp [Expr.doc]
  | var v => simp [Expr.doc, Style.occurrence]
  | call receiver checked function args ih iha =>
    simp only [isReadable, Bool.and_eq_true, areReadable_iff] at h
    simp [Expr.doc, ih h.1.1.2, Style.isLine_arguments fun d hd => hall h.2 iha d hd true]
  | apply function args iha =>
    simp only [isReadable, Bool.and_eq_true, areReadable_iff] at h
    simp [Expr.doc, Style.isLine_arguments fun d hd => hall h.2 iha d hd true]
  | create cls args iha =>
    simp only [isReadable, Bool.and_eq_true, areReadable_iff] at h
    simp [Expr.doc, Style.isLine_arguments fun d hd => hall h.2 iha d hd true]
  | createArray element dimensions initializer ihd ihi =>
    cases initializer with
    | none =>
      simp only [isReadable, Bool.and_eq_true, areReadable_iff] at h
      rw [Expr.doc]
      exact Style.isLine_createArray fun d hd => hall h.2 ihd d hd g
    | some elements =>
      simp only [isReadable, Bool.and_eq_true, areReadable_iff] at h
      rw [Expr.doc]
      exact Style.isLine_createArray_elements fun d hd => hall h.2 (ihi elements rfl) d hd true
  | length array ih => simp [Expr.doc, ih h]
  | index array position iha ihp =>
    simp only [isReadable, Bool.and_eq_true] at h
    have harray := iha (g := g) h.1
    cases array <;> rw [Expr.doc] <;> simp [harray, ihp h.2]
  | cast type e ih =>
    simp only [isReadable, Bool.and_eq_true] at h
    simp [Expr.doc, ih h.2]
  | instanceOf e type inverted ih =>
    simp only [isReadable, Bool.and_eq_true] at h
    simp [Expr.doc, ih h.2]
  | stepBefore step target ih =>
    simp only [isReadable, Bool.and_eq_true] at h
    simp [Expr.doc, ih h.2]
  | stepAfter step target ih =>
    simp only [isReadable, Bool.and_eq_true] at h
    simp [Expr.doc, ih h.2]
  | compound op target amount iht iha =>
    simp only [isReadable, Bool.and_eq_true] at h
    simp [Expr.doc, iht h.1.2, iha h.2]
  | anonymous cls args => cases h

variable {κ : Type} {c : Context κ} {sc : Scope} {e : Expr VariableId κ}

/-- A readable expression is printed, and its text on one line is read as its tree. -/
theorem read_render (h : isReadable c.target (writesBare c sc.declared) c.body.isThis e = true) :
    ∃ code sc', (e.resolve c).run.run sc = (.ok code, sc') ∧
      ∀ s : Style, s.target = c.target → ∀ width, (code.doc s).flatWidth ≤ width →
        read c.target ((code.doc s).render width) = some (tree c.target (nameOf c.body) e) := by
  have hmeets := yields_resolve h sc rfl
  rcases hrun : (e.resolve c).run.run sc with ⟨_ | code, sc'⟩
  · exact (hmeets.failure hrun).elim
  have hcode := (hmeets.result hrun).2
  refine ⟨code, sc', rfl, fun s hs width hw => ?_⟩
  have hreadable := hcode.readable
  rw [← hs] at hreadable
  have hspelled := isSpelled_of_isReadable hreadable
  obtain ⟨last, hlast, hblank⟩ := hspelled.last
  rw [Doc.render_line (isLine_doc hreadable) hw hspelled.line hlast hblank, ← hs,
    read_flat hreadable, hs]
  exact congrArg some hcode.tree

/-- The text is read back as the expression itself, with its chains of one
associative operator grouped to the left. -/
theorem read_printed (h : isReadable c.target (writesBare c sc.declared) c.body.isThis e = true)
    (hu : isUnmixed c.target e = true) :
    ∃ code sc', (e.resolve c).run.run sc = (.ok code, sc') ∧
      ∀ s : Style, s.target = c.target → ∀ width, (code.doc s).flatWidth ≤ width →
        read c.target ((code.doc s).render width) =
          some (spelled c.target (nameOf c.body) (regroup c.target e)) := by
  obtain ⟨code, sc', hrun, hread⟩ := read_render h
  refine ⟨code, sc', hrun, fun s hs width hw => ?_⟩
  rw [hread s hs width hw, tree_eq_spelled hu]

def bare : Context Empty where
  target := .java
  body := {}
  view := nofun

def difference : Expr VariableId Empty :=
  .binary .sub (.const (.int (-5)))
    (.binary .add (.const (.name "a"))
      (.binary .add (.const (.name "b")) (.unary .negate (.cast "int" (.const (.name "c"))))))

theorem read_printed_difference :
    ∃ code sc', (difference.resolve bare).run.run {} = (.ok code, sc') ∧
      ∀ s : Style, s.target = .java → ∀ width, (code.doc s).flatWidth ≤ width →
        read .java ((code.doc s).render width) =
          some (.binary .sub (.unary .negate (.const (.name "5")))
            (.binary .add (.binary .add (.staticField "" "a") (.staticField "" "b"))
              (.unary .negate (.cast "int" (.staticField "" "c"))))) :=
  read_printed (c := bare) (e := difference) (by decide) (by decide)

/-- A chain that is grouped to the right is not read back as it is. -/
theorem exists_regrouped :
    ¬ ∀ (c : Context Empty) (sc : Scope) (e : Expr VariableId Empty),
      isReadable c.target (writesBare c sc.declared) c.body.isThis e = true →
        ∃ code sc', (e.resolve c).run.run sc = (.ok code, sc') ∧
          ∀ s : Style, s.target = c.target → ∀ width, (code.doc s).flatWidth ≤ width →
            read c.target ((code.doc s).render width) =
              some (spelled c.target (nameOf c.body) e) := by
  intro h
  let e : Expr VariableId Empty :=
    .binary .add (.const (.name "a")) (.binary .add (.const (.name "b")) (.const (.name "c")))
  have he : isReadable bare.target (writesBare bare ({} : Scope).declared) bare.body.isThis e =
      true := by decide
  obtain ⟨code, sc', hrun, hread⟩ := h bare {} e he
  obtain ⟨code', sc'', hrun', hread'⟩ := read_render he
  obtain ⟨rfl, rfl⟩ : code' = code ∧ sc'' = sc' := by
    rw [hrun] at hrun'
    cases hrun'
    exact ⟨rfl, rfl⟩
  have hs := hread ⟨.java, 4⟩ rfl _ (Nat.le_refl _)
  rw [hread' ⟨.java, 4⟩ rfl _ (Nat.le_refl _)] at hs
  cases hs

end Reading

end Unparse
