import Unparse.Proofs.Branching.Code
import Unparse.Proofs.Walk.Links

/-! # Else branches of code

A collapsed `else` branch stands without braces. It is read as it is meant if
and only if the `if` in it is the last of the branch that is printed: that `if`
has no jumps, and whatever else the branch holds is hidden.
-/

namespace Unparse

open Branching (Outline read)
open Branching.Outline (done line label text conditional alternative said braces concat
  EachUnbraced)

/-- The `if` at the start of a collapsed `else` branch, and what stands after it
in that branch. -/
def Form.elseIf? : FormCode → Option (Element × List Element)
  | .conditional _ _ (some (e :: f :: es)) =>
    if e.isEmptyBlock && f.form.isConditional then some (f, es) else none
  | _ => none

namespace Element

/-- Nothing of a construction is printed. -/
def isHidden (e : Element) : Bool :=
  e.place.isBare && match e.form with
    | .block statements => statements.all StmtCode.isSilent
    | _ => false

theorem form_of_isEmptyBlock (e : Element) (h : e.isEmptyBlock = true) : e.form = .block [] := by
  obtain ⟨form, place⟩ := e
  obtain ⟨hform, -⟩ := Bool.and_eq_true_iff.mp h
  rcases form with ⟨_ | ⟨stmt, statements⟩⟩ <;> first | rfl | cases hform

inductive Occurs (e : Element) : List Element → Prop where
  | here (es : List Element) : Occurs e (e :: es)
  | branch {f : Element} {code es : List Element} (hc : code ∈ f.form.branches)
    (h : Occurs e code) : Occurs e (f :: es)
  | next (f : Element) {es : List Element} (h : Occurs e es) : Occurs e (f :: es)

variable {e f : Element} {es : List Element}

@[simp] theorem not_occurs_nil : ¬ e.Occurs [] := nofun

theorem occurs_cons_iff :
    e.Occurs (f :: es) ↔ e = f ∨ (∃ code ∈ f.form.branches, e.Occurs code) ∨ e.Occurs es := by
  constructor
  · intro h
    cases h with
    | here => exact .inl rfl
    | branch hc h => exact .inr (.inl ⟨_, hc, h⟩)
    | next _ h => exact .inr (.inr h)
  · rintro (rfl | ⟨code, hc, h⟩ | h)
    · exact .here es
    · exact .branch hc h
    · exact .next f h

theorem forall_occurs_cons {P : Element → Prop} :
    (∀ e, e.Occurs (f :: es) → P e) ↔
      P f ∧ (∀ code ∈ f.form.branches, ∀ e, e.Occurs code → P e) ∧ ∀ e, e.Occurs es → P e := by
  constructor
  · intro h
    refine ⟨h f (.here es), fun code hc e he => h e (.branch hc he), fun e he => h e (.next f he)⟩
  · rintro ⟨hhere, hbranch, hnext⟩ e he
    rcases occurs_cons_iff.mp he with rfl | ⟨code, hc, he⟩ | he
    · exact hhere
    · exact hbranch code hc e he
    · exact hnext e he

end Element

section Induct

theorem Option.sizeOf_lt_of_mem {α : Type} [SizeOf α] {o : Option α} {a : α} (h : a ∈ o.toList) :
    sizeOf a < sizeOf o := by
  cases o with
  | none => cases h
  | some b =>
    obtain rfl : a = b := by simpa using h
    simp

theorem List.sizeOf_snd_lt {α β : Type} [SizeOf α] [SizeOf β] {l : List (α × β)} {b : β}
    (h : b ∈ l.map Prod.snd) : sizeOf b < sizeOf l := by
  obtain ⟨⟨a, b⟩, hmem, rfl⟩ := List.mem_map.mp h
  have hlt := List.sizeOf_lt_of_mem hmem
  simp only [Prod.mk.sizeOf_spec] at hlt
  change sizeOf b < _
  omega

theorem Form.sizeOf_lt_of_mem_branches {form : FormCode} {code : List Element}
    (h : code ∈ form.branches) : sizeOf code < sizeOf form := by
  have hsnd {α : Type} [SizeOf α] {l : List (α × List Element)} (h : code ∈ l.map Prod.snd) :=
    List.sizeOf_snd_lt h
  have hoption {o : Option (List Element)} (h : code ∈ o.toList) := Option.sizeOf_lt_of_mem h
  cases form with
  | block => cases h
  | conditional c whenTrue whenFalse =>
    obtain rfl | h := List.mem_cons.mp h
    · simp only [conditional.sizeOf_spec]
      omega
    · have hlt := hoption h
      simp only [conditional.sizeOf_spec]
      omega
  | whileLoop | doLoop | countedLoop | forEach =>
    obtain rfl := List.mem_singleton.mp h
    simp only [whileLoop.sizeOf_spec, doLoop.sizeOf_spec, countedLoop.sizeOf_spec,
      forEach.sizeOf_spec]
    omega
  | guarded body handlers cleanup =>
    simp only [branches, List.mem_cons, List.mem_append] at h
    simp only [guarded.sizeOf_spec]
    obtain rfl | h | h := h
    · omega
    · have hlt := hsnd h
      omega
    · have hlt := hoption h
      omega
  | switch e cases =>
    have hlt := hsnd h
    simp only [switch.sizeOf_spec]
    omega
  | select e arms fallback =>
    simp only [select.sizeOf_spec]
    obtain h | h := List.mem_append.mp h
    · have hlt := hsnd h
      omega
    · have hlt := hoption h
      omega

/-- Induction over a chain and the branches in it. -/
theorem Code.induct {motive : List Element → Prop} (nil : motive [])
    (cons : ∀ form place es, (∀ code ∈ Form.branches form, motive code) → motive es →
      motive (.mk form place :: es)) : ∀ code, motive code
  | [] => nil
  | .mk form place :: es =>
    cons form place es
      (fun code hc =>
        have _ := Form.sizeOf_lt_of_mem_branches hc
        Code.induct nil cons code)
      (Code.induct nil cons es)
termination_by code => sizeOf code
decreasing_by
  · simp only [List.cons.sizeOf_spec, Element.mk.sizeOf_spec]
    omega
  · simp only [List.cons.sizeOf_spec]
    omega

end Induct

section Blank

variable (s : Style)

theorem Style.isBlank_labelOutline (p : Place) :
    (s.labelOutline p).isBlank = p.label.isNone := by
  cases h : p.label <;> simp [labelOutline, h, Outline.isBlank]

theorem Style.isBlank_jumpsOutline (p : Place) :
    (s.jumpsOutline p).isBlank = (p.breakTo.isNone && p.continueTo.isNone) := by
  have hjump (keyword : String) (j : Option Jump) :
      (s.jumpOutline keyword j).isBlank = j.isNone := by
    rcases j with _ | ⟨_ | name⟩ <;> rfl
  simp [jumpsOutline, hjump]

theorem Style.isBlank_blockOutline (statements : List StmtCode) :
    (s.blockOutline statements).isBlank = statements.all StmtCode.isSilent := by
  induction statements with
  | nil => rfl
  | cons stmt statements ih =>
    rw [List.all_cons, ← ih]
    cases h : stmt.isSilent <;> simp [blockOutline, concat, h, said, Outline.isBlank]

theorem isBlank_leadOutline (form : FormCode) : (leadOutline form).isBlank = true := by
  unfold leadOutline
  split <;> rfl

theorem isBlank_formOutline (place : Place) {form : FormCode} (h : form.isBlock = false) :
    (formOutline s place form).isBlank = false := by
  cases form with
  | block => cases h
  | conditional condition whenTrue whenFalse =>
    rcases whenFalse with _ | ⟨_ | ⟨e, _ | ⟨f, es⟩⟩⟩ <;>
      simp only [formOutline, elseOutline, Outline.isBlank]
    split <;> rfl
  | countedLoop init condition update body =>
    rw [formOutline]
    split <;> simp [said, Outline.isBlank]
  | _ => simp [formOutline, said, Outline.isBlank]

theorem Element.isBlank_outline (e : Element) : (e.outline s).isBlank = e.isHidden := by
  obtain ⟨form, place⟩ := e
  cases hblock : form.isBlock with
  | true =>
    obtain ⟨statements, rfl⟩ : ∃ statements, form = .block statements := by
      cases form with
      | block statements => exact ⟨statements, rfl⟩
      | _ => cases hblock
    simp [Element.outline, isHidden, Element.form, Element.place, Place.isBare, formOutline,
      Style.writesAsWhile, Form.isCountedLoop, s.isBlank_labelOutline, s.isBlank_jumpsOutline,
      s.isBlank_blockOutline, Bool.and_assoc, Bool.and_comm]
  | false =>
    have hhidden : isHidden (.mk form place) = false := by
      cases form with
      | block => cases hblock
      | _ => simp [isHidden, Element.form]
    simp [Element.outline, isBlank_formOutline s place hblock, hhidden]

theorem isBlank_codeOutline (code : List Element) :
    (codeOutline s code).isBlank = code.all Element.isHidden := by
  induction code with
  | nil => rfl
  | cons e es ih => simp [codeOutline, isBlank_leadOutline, Element.isBlank_outline, ih]

end Blank

section Unbraced

variable (s : Style) {P : Outline → Bool}

theorem Branching.Outline.eachUnbraced_concat {os : List Outline} :
    (concat os).EachUnbraced P ↔ ∀ o ∈ os, o.EachUnbraced P := by
  induction os with
  | nil => simp [concat, EachUnbraced]
  | cons o os ih => simpa [concat] using and_congr_right fun _ => ih

theorem Style.eachUnbraced_labelOutline (p : Place) : (s.labelOutline p).EachUnbraced P := by
  cases h : p.label <;> simp [labelOutline, h, EachUnbraced]

theorem Style.eachUnbraced_jumpsOutline (p : Place) : (s.jumpsOutline p).EachUnbraced P := by
  have hjump (keyword : String) (j : Option Jump) :
      (s.jumpOutline keyword j).EachUnbraced P := by
    rcases j with _ | ⟨_ | name⟩ <;> simp [jumpOutline, said, EachUnbraced]
  simp [jumpsOutline, hjump]

theorem eachUnbraced_leadOutline (form : FormCode) : (leadOutline form).EachUnbraced P := by
  unfold leadOutline
  split <;> trivial

theorem Style.eachUnbraced_optionalOutline {f : Outline → Outline}
    (hf : ∀ d, (f (said d)).EachUnbraced P) (stmt : Option StmtCode) :
    (s.optionalOutline f stmt).EachUnbraced P := by
  rcases stmt with _ | stmt
  · trivial
  · rw [optionalOutline]
    split
    · trivial
    · exact hf _

theorem eachUnbraced_outline (e : Element) :
    (e.outline s).EachUnbraced P ↔ (formOutline s e.place e.form).EachUnbraced P := by
  obtain ⟨form, place⟩ := e
  rw [Element.outline, Outline.eachUnbraced_append, Outline.eachUnbraced_append]
  split <;> simp [s.eachUnbraced_labelOutline, s.eachUnbraced_jumpsOutline, EachUnbraced,
    Element.form, Element.place]

theorem eachUnbraced_codeOutline_cons (e : Element) (es : List Element) :
    (codeOutline s (e :: es)).EachUnbraced P ↔
      (formOutline s e.place e.form).EachUnbraced P ∧ (codeOutline s es).EachUnbraced P := by
  simp [codeOutline, eachUnbraced_leadOutline, eachUnbraced_outline]

theorem Style.eachUnbraced_blockOutline (statements : List StmtCode) :
    (s.blockOutline statements).EachUnbraced P := by
  rw [blockOutline, Outline.eachUnbraced_concat]
  intro o ho
  obtain ⟨stmt, -, rfl⟩ := List.mem_map.mp ho
  trivial

theorem Style.eachUnbraced_caseLabelsOutline (keys : List (Option Literal)) :
    (s.caseLabelsOutline keys).EachUnbraced P := by
  rw [caseLabelsOutline, Outline.eachUnbraced_concat]
  intro o ho
  obtain ⟨key, -, rfl⟩ := List.mem_map.mp ho
  cases key <;> trivial

theorem eachUnbraced_handlersOutline (handlers : List (Occurrence × List Element)) :
    (handlersOutline s handlers).EachUnbraced P ↔
      ∀ code ∈ handlers.map Prod.snd, (codeOutline s code).EachUnbraced P := by
  induction handlers with
  | nil => simp [handlersOutline, EachUnbraced]
  | cons h handlers ih => simp [handlersOutline, said, braces, EachUnbraced, ih]

theorem eachUnbraced_casesOutline (cases : List (List (Option Literal) × List Element)) :
    (casesOutline s cases).EachUnbraced P ↔
      ∀ code ∈ cases.map Prod.snd, (codeOutline s code).EachUnbraced P := by
  induction cases with
  | nil => simp [casesOutline, EachUnbraced]
  | cons c cases ih => simp [casesOutline, s.eachUnbraced_caseLabelsOutline, ih]

theorem eachUnbraced_armsOutline (arms : List (ExprCode × List Element)) :
    (armsOutline s arms).EachUnbraced P ↔
      ∀ code ∈ arms.map Prod.snd, (codeOutline s code).EachUnbraced P := by
  induction arms with
  | nil => simp [armsOutline, EachUnbraced]
  | cons a arms ih => simp [armsOutline, said, braces, EachUnbraced, ih]

theorem eachUnbraced_elseOutline (head : List Char) (condition : ExprCode)
    (whenTrue : List Element) (whenFalse : Option (List Element)) :
    (elseOutline s head (codeOutline s whenTrue) whenFalse).EachUnbraced P ↔
      ((codeOutline s whenTrue).EachUnbraced P ∧
        ∀ code ∈ whenFalse, (codeOutline s code).EachUnbraced P) ∧
        ∀ f es, Form.elseIf? (.conditional condition whenTrue whenFalse) = some (f, es) →
          P (f.outline s ++ codeOutline s es) = true := by
  rcases whenFalse with _ | ⟨_ | ⟨e, _ | ⟨f, es⟩⟩⟩
  · simp [elseOutline, EachUnbraced, Form.elseIf?]
  · simp [elseOutline, EachUnbraced, Form.elseIf?, codeOutline]
  · simp [elseOutline, EachUnbraced, Form.elseIf?, codeOutline]
  · rw [elseOutline]
    split
    · next h =>
      obtain ⟨hempty, -⟩ := Bool.and_eq_true_iff.mp h
      have he : (e.outline s).EachUnbraced P := by
        rw [eachUnbraced_outline, e.form_of_isEmptyBlock hempty]
        exact s.eachUnbraced_blockOutline []
      simp [EachUnbraced, Form.elseIf?, h, codeOutline, he, eachUnbraced_leadOutline, and_assoc]
    · next h =>
      simp [EachUnbraced, Form.elseIf?, h, codeOutline, eachUnbraced_leadOutline]

theorem eachUnbraced_formOutline (place : Place) (form : FormCode) :
    (formOutline s place form).EachUnbraced P ↔
      (∀ code ∈ form.branches, (codeOutline s code).EachUnbraced P) ∧
        ∀ f es, form.elseIf? = some (f, es) → P (f.outline s ++ codeOutline s es) = true := by
  cases form with
  | block statements => simp [formOutline, s.eachUnbraced_blockOutline, Form.branches, Form.elseIf?]
  | conditional condition whenTrue whenFalse =>
    rw [formOutline, eachUnbraced_elseOutline s _ condition]
    simp [Form.branches]
  | countedLoop init condition update body =>
    have hinit : (s.optionalOutline (· ++ line done) init).EachUnbraced P :=
      s.eachUnbraced_optionalOutline (fun _ => by simp [said, EachUnbraced]) init
    have hupdate : (s.optionalOutline line update).EachUnbraced P :=
      s.eachUnbraced_optionalOutline (fun _ => by simp [said, EachUnbraced]) update
    rw [formOutline]
    split <;> simp [said, braces, EachUnbraced, Form.branches, Form.elseIf?, hinit, hupdate,
      s.eachUnbraced_labelOutline]
  | guarded body handlers cleanup =>
    cases cleanup <;> simp [formOutline, said, braces, EachUnbraced, Form.branches, Form.elseIf?,
      eachUnbraced_handlersOutline, cleanupOutline, or_imp, forall_and]
  | switch selector cases =>
    simp [formOutline, said, braces, EachUnbraced, Form.branches, Form.elseIf?,
      eachUnbraced_casesOutline]
  | select selector arms fallback =>
    cases fallback <;> simp [formOutline, said, braces, EachUnbraced, Form.branches, Form.elseIf?,
      eachUnbraced_armsOutline, fallbackOutline, or_imp, forall_and]
  | _ => simp [formOutline, said, braces, EachUnbraced, Form.branches, Form.elseIf?]

/-- The branches without braces in the outline of a chain are the collapsed ones
in it. -/
theorem eachUnbraced_codeOutline (code : List Element) :
    (codeOutline s code).EachUnbraced P ↔
      ∀ e : Element, e.Occurs code → ∀ f es, e.form.elseIf? = some (f, es) →
        P (f.outline s ++ codeOutline s es) = true := by
  induction code using Code.induct with
  | nil => simp [codeOutline, EachUnbraced]
  | cons form place es ihform ihes =>
    rw [eachUnbraced_codeOutline_cons, eachUnbraced_formOutline, Element.forall_occurs_cons, ihes,
      and_assoc, and_left_comm]
    refine and_congr_right fun _ => and_congr_left fun _ => ?_
    exact forall₂_congr ihform

theorem Code.eachUnbraced_outline (sameLine : Bool) (code : Code) :
    (Code.outline s sameLine code).EachUnbraced P ↔ (codeOutline s code).EachUnbraced P := by
  cases code with
  | nil => rfl
  | cons e es =>
    cases sameLine <;> simp [Code.outline, codeOutline, eachUnbraced_leadOutline]

end Unbraced

section Else

variable (s : Style)

theorem Form.isConditional_of_elseIf? {form : FormCode} {f : Element} {es : List Element}
    (h : form.elseIf? = some (f, es)) : f.form.isConditional = true := by
  unfold elseIf? at h
  split at h
  · split at h
    · next hcollapse =>
      cases h
      exact (Bool.and_eq_true_iff.mp hcollapse).2
    · cases h
  · cases h

theorem Element.afterIf_outline {f : Element} (h : f.form.isConditional = true) (o : Outline) :
    (f.outline s ++ o).opensIf = true ∧
      (f.outline s ++ o).afterIf = s.jumpsOutline f.place ++ o := by
  obtain ⟨form, place⟩ := f
  obtain ⟨condition, whenTrue, whenFalse, rfl⟩ :
      ∃ condition whenTrue whenFalse, form = .conditional condition whenTrue whenFalse := by
    cases form with
    | conditional condition whenTrue whenFalse => exact ⟨_, _, _, rfl⟩
    | _ => cases h
  have helse (head : List Char) (body : Outline) :
      (∃ branch, elseOutline s head body whenFalse = conditional head branch done) ∨
        ∃ branch braced other,
          elseOutline s head body whenFalse = alternative head branch braced other done := by
    rcases whenFalse with _ | ⟨_ | ⟨e, _ | ⟨f, es⟩⟩⟩
    · exact .inl ⟨_, rfl⟩
    · exact .inr ⟨_, _, _, rfl⟩
    · exact .inr ⟨_, _, _, rfl⟩
    · rw [elseOutline]
      split
      · exact .inr ⟨_, _, _, rfl⟩
      · exact .inr ⟨_, _, _, rfl⟩
  have hform : s.writesAsWhile (.conditional condition whenTrue whenFalse) = false := rfl
  rw [Element.outline, formOutline, hform]
  rcases helse (s.conditionHead "if " condition).flat (codeOutline s whenTrue) with
    ⟨branch, heq⟩ | ⟨branch, braced, other, heq⟩
  all_goals
    rw [heq]
    cases h : place.label <;> simp [Style.labelOutline, h, Outline.opensIf, Outline.afterIf, Element.place]

theorem shaped_outline (sameLine : Bool) (code : Code) : (Code.outline s sameLine code).Shaped := by
  refine (Code.eachUnbraced_outline s sameLine code).mpr ((eachUnbraced_codeOutline s code).mpr ?_)
  intro e _ f es helse
  exact (f.afterIf_outline s (Form.isConditional_of_elseIf? helse) _).1

theorem governed_outline_iff (sameLine : Bool) (code : Code) :
    (Code.outline s sameLine code).Governed ↔
      ∀ e : Element, e.Occurs code → ∀ f es, e.form.elseIf? = some (f, es) →
        f.place.breakTo = none ∧ f.place.continueTo = none ∧ ∀ g ∈ es, g.isHidden = true := by
  refine (Code.eachUnbraced_outline s sameLine code).trans ((eachUnbraced_codeOutline s code).trans ?_)
  refine forall₂_congr fun e _ => forall₂_congr fun f es => forall_congr' fun helse => ?_
  rw [(f.afterIf_outline s (Form.isConditional_of_elseIf? helse) _).2]
  simp [s.isBlank_jumpsOutline, isBlank_codeOutline, and_assoc]

/-- The text of a chain is that of its outline. With braces around every branch
it is read as it is meant. As it is printed it is read so if and only if behind
the `if` of every collapsed `else` branch nothing more of that branch is
printed. -/
theorem read_outline_iff (sameLine : Bool) (code : Code) :
    (Code.outline s sameLine code).spell = (Code.doc s sameLine code).flat ∧
      read (Code.outline s sameLine code).expand.marks =
        some (Code.outline s sameLine code).meaning ∧
      (read (Code.outline s sameLine code).marks = some (Code.outline s sameLine code).meaning ↔
        ∀ e : Element, e.Occurs code → ∀ f es, e.form.elseIf? = some (f, es) →
          f.place.breakTo = none ∧ f.place.continueTo = none ∧ ∀ g ∈ es, g.isHidden = true) := by
  refine ⟨Code.spell_outline s sameLine code, Outline.read_expand _, ?_⟩
  rw [Outline.read_marks_eq_meaning_iff (shaped_outline s sameLine code), governed_outline_iff]

/-- A body without variables, in Java. The `else` branch of its `if` holds an
empty block, an `if`, and a call behind it. -/
def loose : Context Empty where
  target := .java
  body :=
    let call (f : String) : Construction Empty := { form := .block [.eval (.apply f [])] }
    { constructions := ⟨[
        ⟨1, some { form := .conditional (.const (.name "a")) ⟨2, 1⟩ (some ⟨3, 1⟩) }⟩,
        ⟨1, some (call "f")⟩,
        ⟨1, some { form := .block [], next := some ⟨4, 1⟩ }⟩,
        ⟨1, some { form := .conditional (.const (.name "b")) ⟨5, 1⟩ none, next := some ⟨6, 1⟩ }⟩,
        ⟨1, some (call "g")⟩,
        ⟨1, some (call "h")⟩], []⟩
      entry := some ⟨1, 1⟩ }
  view := nofun

/-- The call behind the collapsed `if` is read as if it stood behind the outer
one. -/
theorem exists_misread :
    ¬ ∀ (c : Context Empty) (head : Option ConstructionId) (code : Code) (sc : Scope),
      (c.unfold head).run.run {} = (.ok code, sc) → ∀ s : Style,
        read (Code.outline s false code).marks = some (Code.outline s false code).meaning := by
  intro h
  have hread := h loose loose.body.entry _ _ rfl ⟨.java, 4⟩
  revert hread
  decide

end Else

end Unparse
