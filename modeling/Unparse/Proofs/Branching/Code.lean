import Unparse.Print.Code
import Unparse.Proofs.Branching.Governed
import Unparse.Proofs.Reading.Line

/-! # Outlines of code

The outline of a chain goes along its document. Statements and heads are taken
whole, and an `else` whose branch is collapsed stands without braces.
-/

namespace Unparse

open Layout (Doc)
open Branching (Outline)

namespace Branching.Outline

def said (d : Doc) : Outline := text d.flat done

def braces (body : Outline) : Outline := group (body ++ line done) done

def concat (os : List Outline) : Outline := os.foldr (· ++ ·) done

end Branching.Outline

open Branching.Outline (done line label text conditional alternative said braces concat)

namespace Style

variable (s : Style)

def labelOutline (p : Place) : Outline :=
  match p.label with
  | some name => label (s.target.loopLabel name).toList done
  | none => done

def jumpOutline (keyword : String) : Option Jump → Outline
  | some ⟨some name⟩ =>
    line (said (Doc.text (keyword ++ s.lexicon.jumpSeparator ++ name ++ s.lexicon.terminator)))
  | some ⟨none⟩ => line (said (Doc.text (keyword ++ s.lexicon.terminator)))
  | none => done

def jumpsOutline (p : Place) : Outline :=
  s.jumpOutline "break" p.breakTo ++ s.jumpOutline "continue" p.continueTo

def blockOutline (statements : List StmtCode) : Outline :=
  concat ((statements.filter fun stmt => !stmt.isSilent).map fun stmt =>
    line (said (stmt.doc s)))

def optionalOutline (f : Outline → Outline) : Option StmtCode → Outline
  | some stmt => if stmt.isSilent then done else f (said (stmt.doc s))
  | none => done

def caseLabelsOutline (keys : List (Option Literal)) : Outline :=
  concat (keys.map fun
    | some key => line (said (Doc.text ("case " ++ s.target.literal key ++ ":")))
    | none => line (said (Doc.text "default:")))

def conditionHead (keyword : String) (condition : ExprCode) : Doc :=
  Doc.text keyword ++ (condition.doc s).parens ++ Doc.text " "

end Style

def leadOutline (form : FormCode) : Outline := if form.isBlock then done else line done

mutual

/-- The outline of a construction with its label and jumps. -/
def Element.outline (s : Style) : Element → Outline
  | .mk form place =>
    (if s.writesAsWhile form then done else s.labelOutline place) ++
      formOutline s place form ++ s.jumpsOutline place

def formOutline (s : Style) (place : Place) : FormCode → Outline
  | .block statements => s.blockOutline statements
  | .conditional condition whenTrue whenFalse =>
    elseOutline s (s.conditionHead "if " condition).flat (codeOutline s whenTrue) whenFalse
  | .whileLoop condition body =>
    said (s.conditionHead "while " condition) ++ braces (codeOutline s body)
  | .doLoop condition body =>
    said (Doc.text "do ") ++ braces (codeOutline s body) ++
      said (Doc.text " while " ++ (condition.doc s).parens ++ s.terminator)
  | .countedLoop init condition update body =>
    if s.lexicon.countedLoops then
      said (s.countedHeader init (condition.doc s) update) ++ braces (codeOutline s body)
    else
      s.optionalOutline (· ++ line done) init ++ s.labelOutline place ++
        said (s.conditionHead "while " condition) ++
        braces (codeOutline s body ++ s.optionalOutline line update)
  | .forEach vars container body =>
    said (Doc.text "for (" ++ s.loopVariables vars ++
        Doc.text (" " ++ s.lexicon.forEachKeyword ++ " ") ++ container.doc s ++ Doc.text ") ") ++
      braces (codeOutline s body)
  | .guarded body handlers cleanup =>
    said (Doc.text "try ") ++ braces (codeOutline s body) ++ handlersOutline s handlers ++
      cleanupOutline s cleanup
  | .switch selector cases =>
    said (s.conditionHead "switch " selector) ++ braces (casesOutline s cases)
  | .select selector arms fallback =>
    said (s.conditionHead (s.lexicon.selectKeyword ++ " ") selector) ++
      braces (armsOutline s arms ++ line (said (Doc.text (s.lexicon.fallbackArm ++ " -> "))) ++
        fallbackOutline s fallback)

def codeOutline (s : Style) : List Element → Outline
  | [] => done
  | e :: es => leadOutline e.form ++ e.outline s ++ codeOutline s es

def elseOutline (s : Style) (head : List Char) (body : Outline) : Option (List Element) → Outline
  | none => conditional head (body ++ line done) done
  | some [] => alternative head (body ++ line done) true (line done) done
  | some [e] =>
    alternative head (body ++ line done) true (leadOutline e.form ++ e.outline s ++ line done) done
  | some (e :: f :: es) =>
    if e.isEmptyBlock && f.form.isConditional then
      alternative head (body ++ line done) false (f.outline s ++ codeOutline s es) done
    else
      alternative head (body ++ line done) true
        (leadOutline e.form ++ e.outline s ++
          (leadOutline f.form ++ f.outline s ++ codeOutline s es) ++ line done) done

def handlersOutline (s : Style) : List (Occurrence × List Element) → Outline
  | [] => done
  | (v, body) :: handlers =>
    said (Doc.text " catch " ++
        (Doc.text (s.target.declaration .handler v.name v.type)).parens ++ Doc.text " ") ++
      braces (codeOutline s body) ++ handlersOutline s handlers

def cleanupOutline (s : Style) : Option (List Element) → Outline
  | none => done
  | some body => said (Doc.text " finally ") ++ braces (codeOutline s body)

def fallbackOutline (s : Style) : Option (List Element) → Outline
  | none => .group done done
  | some body => braces (codeOutline s body)

def casesOutline (s : Style) : List (List (Option Literal) × List Element) → Outline
  | [] => done
  | (keys, body) :: cases =>
    s.caseLabelsOutline keys ++ codeOutline s body ++ casesOutline s cases

def armsOutline (s : Style) : List (ExprCode × List Element) → Outline
  | [] => done
  | (guard, body) :: arms =>
    line (said (Doc.text s.lexicon.armKeyword ++ guard.doc s ++ Doc.text " -> ")) ++
      braces (codeOutline s body) ++ armsOutline s arms

end

/-- The outline of a chain whose first construction may stay on the line that is
open. -/
def Code.outline (s : Style) (sameLine : Bool) : Code → Outline
  | [] => done
  | e :: es =>
    (if sameLine then done else leadOutline e.form) ++ e.outline s ++ codeOutline s es

section Spell

namespace Branching.Outline

attribute [local simp] spell marks Mark.spell

@[simp] theorem spell_done : done.spell = [] := rfl

@[simp] theorem spell_line (o : Outline) : (line o).spell = '\n' :: o.spell := by
  simp

@[simp] theorem spell_label (cs : List Char) (o : Outline) : (label cs o).spell = cs ++ o.spell := by
  simp

@[simp] theorem spell_text (cs : List Char) (o : Outline) : (text cs o).spell = cs ++ o.spell := by
  simp

@[simp] theorem spell_group (body rest : Outline) :
    (group body rest).spell = '\x7b' :: body.spell ++ '\x7d' :: rest.spell := by
  simp

@[simp] theorem spell_conditional (head : List Char) (body rest : Outline) :
    (conditional head body rest).spell =
      head ++ '\x7b' :: body.spell ++ '\x7d' :: rest.spell := by
  simp

@[simp] theorem spell_alternative_true (head : List Char) (body other rest : Outline) :
    (alternative head body true other rest).spell =
      head ++ '\x7b' :: body.spell ++ '\x7d' :: (" else ".toList ++ '\x7b' :: other.spell ++
        '\x7d' :: rest.spell) := by
  simp

@[simp] theorem spell_alternative_false (head : List Char) (body other rest : Outline) :
    (alternative head body false other rest).spell =
      head ++ '\x7b' :: body.spell ++ '\x7d' :: (" else ".toList ++ other.spell ++ rest.spell) := by
  simp

@[simp] theorem spell_said (d : Doc) : (said d).spell = d.flat := by simp [said]

@[simp] theorem spell_braces (body : Outline) :
    (braces body).spell = '\x7b' :: body.spell ++ ['\n', '\x7d'] := by
  simp [braces]

@[simp] theorem spell_concat (os : List Outline) : (concat os).spell = os.flatMap spell := by
  induction os with
  | nil => rfl
  | cons o os ih => simpa [concat] using ih

end Branching.Outline

theorem Layout.Doc.flat_concat (ds : List Doc) : (Doc.concat ds).flat = ds.flatMap flat := by
  have hfold := flat_foldl_separated Doc.empty Doc.empty ds
  simpa [Doc.concat] using hfold

variable (s : Style)

theorem Style.spell_labelOutline (p : Place) : (s.labelOutline p).spell = (s.labelDoc p).flat := by
  cases hlabel : p.label <;> simp [labelOutline, labelDoc, hlabel]

theorem Style.spell_jumpOutline (keyword : String) (j : Option Jump) :
    (s.jumpOutline keyword j).spell = (s.jumpDoc keyword j).flat := by
  unfold jumpOutline jumpDoc
  split <;> simp

theorem Style.spell_jumpsOutline (p : Place) : (s.jumpsOutline p).spell = (s.jumpsDoc p).flat := by
  simp [jumpsOutline, jumpsDoc, spell_jumpOutline]

theorem Style.spell_blockOutline (statements : List StmtCode) :
    (s.blockOutline statements).spell = (s.blockDoc statements).flat := by
  simp [blockOutline, blockDoc, Layout.Doc.flat_concat, List.flatMap_map]

theorem Style.spell_caseLabelsOutline (keys : List (Option Literal)) :
    (s.caseLabelsOutline keys).spell = (s.caseLabels keys).flat := by
  rw [caseLabelsOutline, caseLabels, Branching.Outline.spell_concat, Layout.Doc.flat_concat,
    List.flatMap_map, List.flatMap_map]
  congr 1
  funext key
  cases key <;> simp

theorem spell_leadOutline (form : FormCode) :
    (leadOutline form).spell = (Style.leadDoc form).flat := by
  unfold leadOutline Style.leadDoc
  split <;> rfl

mutual

theorem Element.spell_outline (e : Element) : (e.outline s).spell = (e.doc s).flat := by
  cases e with
  | mk form place =>
    rw [Element.outline, Element.doc]
    split <;> simp [spell_formOutline place form, s.spell_jumpsOutline, s.spell_labelOutline]

theorem spell_formOutline (place : Place) (form : FormCode) :
    (formOutline s place form).spell = (formDoc s place form).flat := by
  cases form with
  | block statements => exact s.spell_blockOutline statements
  | conditional condition whenTrue whenFalse =>
    rw [formOutline, spell_elseOutline, spell_codeOutline whenTrue]
    simp [formDoc, Style.conditionHead, Style.braced]
  | whileLoop condition body =>
    simp [formOutline, formDoc, Style.conditionHead, Style.braced, spell_codeOutline body]
  | doLoop condition body =>
    simp [formOutline, formDoc, Style.braced, spell_codeOutline body]
  | countedLoop init condition update body =>
    have hinit : (s.optionalOutline (· ++ line done) init).spell =
        (s.optional (· ++ Doc.newline) init).flat := by
      cases init with
      | none => rfl
      | some stmt =>
        simp only [Style.optionalOutline, Style.optional]
        split <;> simp
    have hupdate : (s.optionalOutline line update).spell =
        (s.optional (Doc.newline ++ ·) update).flat := by
      cases update with
      | none => rfl
      | some stmt =>
        simp only [Style.optionalOutline, Style.optional]
        split <;> simp
    rw [formOutline, formDoc]
    split
    · simp [Style.braced, spell_codeOutline body]
    · simp [Style.conditionHead, Style.braced, spell_codeOutline body, hinit, hupdate,
        s.spell_labelOutline]
  | forEach vars container body =>
    simp [formOutline, formDoc, Style.braced, spell_codeOutline body]
  | guarded body handlers cleanup =>
    simp [formOutline, formDoc, Style.braced, spell_codeOutline body,
      spell_handlersOutline handlers, spell_cleanupOutline cleanup]
  | switch selector cases =>
    simp [formOutline, formDoc, Style.conditionHead, spell_casesOutline cases]
  | select selector arms fallback =>
    simp [formOutline, formDoc, Style.conditionHead, spell_armsOutline arms,
      spell_fallbackOutline fallback]

theorem spell_codeOutline (code : List Element) :
    (codeOutline s code).spell = (codeDoc s code).flat := by
  cases code with
  | nil => rfl
  | cons e es =>
    simp [codeOutline, codeDoc, Element.spell_outline e, spell_codeOutline es, spell_leadOutline]

theorem spell_elseOutline (head : List Char) (body : Outline) (code : Option (List Element)) :
    (elseOutline s head body code).spell =
      head ++ '\x7b' :: body.spell ++ ['\n', '\x7d'] ++ (elseDoc s code).flat := by
  cases code with
  | none => simp [elseOutline, elseDoc]
  | some code =>
    cases code with
    | nil => simp [elseOutline, elseDoc, Style.braced]
    | cons e code =>
      cases code with
      | nil =>
        simp [elseOutline, elseDoc, Style.braced, Element.spell_outline e,
          spell_leadOutline]
      | cons f es =>
        rw [elseOutline, elseDoc]
        split
        · simp [Element.spell_outline f, spell_codeOutline es]
        · simp [Style.braced, Element.spell_outline e, Element.spell_outline f,
            spell_codeOutline es, spell_leadOutline]

theorem spell_handlersOutline (handlers : List (Occurrence × List Element)) :
    (handlersOutline s handlers).spell = (handlersDoc s handlers).flat := by
  cases handlers with
  | nil => rfl
  | cons h handlers =>
    cases h with
    | mk v body =>
      simp [handlersOutline, handlersDoc, Style.braced, spell_codeOutline body,
        spell_handlersOutline handlers]

theorem spell_cleanupOutline (code : Option (List Element)) :
    (cleanupOutline s code).spell = (cleanupDoc s code).flat := by
  cases code with
  | none => rfl
  | some body => simp [cleanupOutline, cleanupDoc, Style.braced, spell_codeOutline body]

theorem spell_fallbackOutline (code : Option (List Element)) :
    (fallbackOutline s code).spell = (fallbackDoc s code).flat := by
  cases code with
  | none => simp [fallbackOutline, fallbackDoc]
  | some body => simp [fallbackOutline, fallbackDoc, Style.braced, spell_codeOutline body]

theorem spell_casesOutline (cases : List (List (Option Literal) × List Element)) :
    (casesOutline s cases).spell = (casesDoc s cases).flat := by
  cases cases with
  | nil => rfl
  | cons h cases =>
    cases h with
    | mk keys body =>
      simp [casesOutline, casesDoc, s.spell_caseLabelsOutline, spell_codeOutline body,
        spell_casesOutline cases]

theorem spell_armsOutline (arms : List (ExprCode × List Element)) :
    (armsOutline s arms).spell = (armsDoc s arms).flat := by
  cases arms with
  | nil => rfl
  | cons h arms =>
    cases h with
    | mk guard body =>
      simp [armsOutline, armsDoc, Style.braced, spell_codeOutline body,
        spell_armsOutline arms]

end

/-- The outline of a chain spells its text. -/
theorem Code.spell_outline (sameLine : Bool) (code : Code) :
    (Code.outline s sameLine code).spell = (Code.doc s sameLine code).flat := by
  cases code with
  | nil => rfl
  | cons e es =>
    cases sameLine <;>
      simp [Code.outline, Code.doc, Element.spell_outline, spell_codeOutline, spell_leadOutline]

end Spell

end Unparse
