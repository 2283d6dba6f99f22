import Unparse.Proofs.Failure.Traversal
import Unparse.Proofs.Layout.Laid
import Unparse.Proofs.Walk.Ensures

/-! # Text on one line

Every place where the document of an expression or a statement may break belongs to a
group, unless there are anonymous classes in it, whose members have lines of their own. So
its text has a single spelling without line breaks, and that is the text on each page that
is wide enough.
-/

namespace Unparse

open Layout (Doc)

namespace Layout.Doc

/-- A document has one text without line breaks, which is shown wherever there is room. -/
structure StaysOnLine (d : Doc) : Prop where
  lays : d.Lays d.flat
  only : ∀ cs, d.Lays cs → '\n' ∉ cs → cs = d.flat
  render : ∀ width, d.flatWidth ≤ width → '\n' ∉ d.flat →
    d.render width = String.ofList (Text.trimEnd d.flat)

variable {g : Bool} {d : Doc} {cs : List Char}

theorem IsLine.lays_flat (h : d.IsLine g) : d.Lays d.flat := by
  induction d generalizing g with
  | empty | word _ => exact rfl
  | seq a b iha ihb => exact ⟨_, _, iha h.1, ihb h.2, rfl⟩
  | nest _ d ih | group d ih => exact ih h
  | choice b d _ ih => exact .inr (ih h.2.2)
  | newline => exact h.elim

theorem IsLine.eq_flat (h : d.IsLine g) (hd : d.Lays cs) (hcs : '\n' ∉ cs) : cs = d.flat := by
  induction d generalizing g cs with
  | empty | word _ => exact hd
  | seq a b iha ihb =>
    obtain ⟨x, y, hx, hy, rfl⟩ := hd
    obtain ⟨hnx, hny⟩ : '\n' ∉ x ∧ '\n' ∉ y := by simpa using hcs
    rw [flat, iha h.1 hx hnx, ihb h.2 hy hny]
  | nest _ d ih | group d ih => exact ih h hd hcs
  | choice b d _ ih =>
    obtain ⟨-, rfl, hline⟩ := h
    rcases hd with ⟨n, rfl⟩ | hd
    · exact absurd List.mem_cons_self hcs
    · exact ih hline hd hcs
  | newline => exact h.elim

theorem IsLine.staysOnLine (h : d.IsLine false) : d.StaysOnLine where
  lays := h.lays_flat
  only _ := h.eq_flat
  render _ hw hn := by rw [render_flat h hw, Text.tidy_of_not_mem hn]

end Layout.Doc

variable {κ : Type} {c : Context κ} (s : Style)

theorem allCreated_eq_nil_iff {ν : Type} {drops : κ → Bool} {es : List (Expr ν κ)} :
    Expr.allCreated drops es = [] ↔ ∀ e ∈ es, e.created drops = [] := by
  induction es with
  | nil => simp [Expr.allCreated]
  | cons e es ih => simp [Expr.allCreated, ih]

theorem ensures_isLine_all {es : List (Expr VariableId κ)}
    (h : Expr.allCreated c.drops es = [])
    (ih : ∀ e ∈ es, e.created c.drops = [] →
      Ensures (e.resolve c) fun code => (code.doc s).IsLine false) :
    Ensures (Expr.resolveAll c es) fun codes => ∀ d ∈ Expr.docs s codes, d.IsLine false := by
  rw [allCreated_eq_nil_iff] at h
  induction es with
  | nil => exact .pure (by simp [Expr.docs])
  | cons e es ihes =>
    obtain ⟨he, hes⟩ := List.forall_mem_cons.mp h
    refine (ih e List.mem_cons_self he).bind fun code hcode => ?_
    refine (ihes hes fun x hx => ih x (List.mem_cons_of_mem e hx)).map fun codes hcodes => ?_
    exact List.forall_mem_cons.mpr ⟨hcode, hcodes⟩

/-- The code of an expression without anonymous classes can give up its line breaks. -/
theorem ensures_isLine (e : Expr VariableId κ) (h : e.created c.drops = []) :
    Ensures (e.resolve c) fun code => (code.doc s).IsLine false := by
  induction e using Expr.induct with
  | const value => exact .pure (Doc.isLine_text _ _)
  | staticField qualifier name => exact .pure (Doc.isLine_text _ _)
  | var id => exact (Ensures.trivial _).map fun v _ => Doc.isLine_text _ _
  | unary op e ih => exact (ih h).map fun code hcode => Style.isLine_unary.mpr hcode
  | field e name ih => exact (ih h).map fun code hcode => by simp [Expr.doc, hcode]
  | length e ih => exact (ih h).map fun code hcode => by simp [Expr.doc, hcode]
  | cast type e ih => exact (ih h).map fun code hcode => Style.isLine_cast.mpr hcode
  | instanceOf e type inverted ih =>
    exact (ih h).map fun code hcode => Style.isLine_instanceOf.mpr hcode
  | stepBefore step e ih => exact (ih h).map fun code hcode => by simp [Expr.doc, hcode]
  | stepAfter step e ih => exact (ih h).map fun code hcode => by simp [Expr.doc, hcode]
  | binary op l r ihl ihr =>
    obtain ⟨hl, hr⟩ := List.append_eq_nil_iff.mp h
    exact (ihl hl).bind fun l hl => (ihr hr).map fun r hr =>
      Style.isLine_binary.mpr ⟨hl.mono, hr.mono⟩
  | compound op l r ihl ihr =>
    obtain ⟨hl, hr⟩ := List.append_eq_nil_iff.mp h
    rw [Expr.resolve]
    split
    · exact Ensures.throw.bind (P := fun _ => False) fun _ => False.elim
    · exact (ihl hl).bind fun l hl => (ihr hr).map fun r hr =>
        Style.isLine_compound.mpr ⟨hl.mono, hr.mono⟩
  | index l r ihl ihr =>
    obtain ⟨hl, hr⟩ := List.append_eq_nil_iff.mp h
    refine (ihl hl).bind fun l hl => (ihr hr).map fun r hr => ?_
    simp only [Expr.doc]
    split <;> simp [hl, hr]
  | ternary e l r ihe ihl ihr =>
    obtain ⟨he, hlr⟩ := List.append_eq_nil_iff.mp h
    obtain ⟨hl, hr⟩ := List.append_eq_nil_iff.mp hlr
    refine (ihe he).bind fun e he => (ihl hl).bind fun l hl => (ihr hr).map fun r hr => ?_
    simp [Expr.doc, he.mono, hl.mono, hr.mono]
  | call receiver checked function args ihr ihargs =>
    obtain ⟨hreceiver, hall⟩ := List.append_eq_nil_iff.mp h
    have hargs := ensures_isLine_all s hall ihargs
    rw [Expr.resolve]
    split
    · refine hargs.map fun codes hcodes => ?_
      simp [Expr.doc, Style.isLine_arguments fun d hd => (hcodes d hd).mono]
    · refine (ihr hreceiver).bind fun code hcode => hargs.map fun codes hcodes => ?_
      simp [Expr.doc, hcode, Style.isLine_arguments fun d hd => (hcodes d hd).mono]
  | apply function args ih =>
    refine (ensures_isLine_all s h ih).map fun codes hcodes => ?_
    simp [Expr.doc, Style.isLine_arguments fun d hd => (hcodes d hd).mono]
  | create cls args ih =>
    refine (ensures_isLine_all s h ih).map fun codes hcodes => ?_
    simp [Expr.doc, Style.isLine_arguments fun d hd => (hcodes d hd).mono]
  | createArray element dimensions initializer ihd ihi =>
    cases initializer with
    | none =>
      exact (ensures_isLine_all s h ihd).map fun codes hcodes => Style.isLine_createArray hcodes
    | some elements =>
      exact (ensures_isLine_all s h (ihi elements rfl)).map fun codes hcodes =>
        Style.isLine_createArray_elements fun d hd => (hcodes d hd).mono
  | anonymous cls args ih =>
    exact absurd (List.append_eq_nil_iff.mp h).2 (List.cons_ne_nil cls [])

theorem ensures_isLine_stmt (stmt : Stmt VariableId κ) (h : stmt.created c.drops = []) :
    Ensures (stmt.resolve c) fun code => (code.bodyDoc s).IsLine false := by
  have hexpr (e : Expr VariableId κ) (he : e.created c.drops = []) := ensures_isLine s e he
  cases stmt with
  | eval e =>
    have heval : Ensures (do return StmtCode.plain (.eval (← e.resolve c)))
        fun code => (code.bodyDoc s).IsLine false := (hexpr e h).map fun code hcode => hcode
    cases e with
    | compound op target amount =>
      obtain ⟨htarget, hamount⟩ := List.append_eq_nil_iff.mp h
      rw [Stmt.resolve]
      split
      · refine (hexpr target htarget).bind fun target ht => (hexpr _ htarget).bind fun again hr =>
          (hexpr amount hamount).map fun amount ha => ?_
        simp [StmtCode.bodyDoc, Expr.operandDoc, ht, hr.mono, ha.mono]
      · exact heval
    | _ => exact heval
  | assign target value =>
    obtain ⟨htarget, hvalue⟩ := List.append_eq_nil_iff.mp h
    refine (hexpr target htarget).bind fun target ht => (hexpr value hvalue).map fun value hv => ?_
    simp [StmtCode.bodyDoc, ht.mono, hv.mono]
  | ret value explicit =>
    cases value with
    | none => cases explicit <;> exact .pure (by simp [StmtCode.bodyDoc])
    | some e =>
      refine (hexpr e h).map fun code hcode => ?_
      cases explicit <;> simp [StmtCode.bodyDoc, hcode]
  | throw e =>
    refine (hexpr e h).map fun code hcode => ?_
    simp [StmtCode.bodyDoc, hcode.mono]

/-- An expression or a statement without anonymous classes is written without a line break
wherever there is room for it. -/
theorem written_on_line (c : Context κ) (s : Style) :
    (∀ e : Expr VariableId κ, e.created c.drops = [] →
      Ensures (e.resolve c) fun code => (code.doc s).StaysOnLine) ∧
    ∀ stmt : Stmt VariableId κ, stmt.created c.drops = [] →
      Ensures (stmt.resolve c) fun code =>
        (code.doc s).StaysOnLine ∧ (code.bodyDoc s).StaysOnLine := by
  refine ⟨fun e h => ?_, fun stmt h => ?_⟩
  · exact (ensures_isLine s e h).mono fun code hcode => hcode.staysOnLine
  · refine (ensures_isLine_stmt s stmt h).mono fun code hcode => ⟨?_, hcode.staysOnLine⟩
    have hdoc : (code.doc s).IsLine false := by simp [StmtCode.doc, Style.terminator, hcode]
    exact hdoc.staysOnLine

def noBody : Context Empty where
  target := .kotlin
  body := {}
  view := nofun

def addition : Stmt VariableId Empty :=
  .assign (.staticField "Sums" "total")
    (.binary .add (.apply "first" []) (.apply "rest" [.const (.name "n")]))

theorem written_on_line_addition :
    addition.created noBody.drops = [] ∧
      ∃ code sc, (addition.resolve noBody).run.run {} = (.ok code, sc) ∧
        (code.doc ⟨.kotlin, 4⟩).flatWidth = 30 ∧
        (code.doc ⟨.kotlin, 4⟩).render 30 = "Sums.total = first() + rest(n)" := by
  have hcreated : addition.created noBody.drops = [] := rfl
  obtain ⟨code, sc, hrun, hwidth, hflat⟩ : ∃ code sc,
      (addition.resolve noBody).run.run {} = (.ok code, sc) ∧
        (code.doc ⟨.kotlin, 4⟩).flatWidth = 30 ∧
        (code.doc ⟨.kotlin, 4⟩).flat = "Sums.total = first() + rest(n)".toList :=
    ⟨_, _, rfl, by decide +kernel, by decide +kernel⟩
  have hline := (((written_on_line noBody ⟨.kotlin, 4⟩).2 addition hcreated).result hrun).1
  refine ⟨hcreated, code, sc, hrun, hwidth, ?_⟩
  rw [hline.render 30 (Nat.le_of_eq hwidth) (by rw [hflat]; decide), hflat]
  decide +kernel

end Unparse
