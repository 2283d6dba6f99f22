import Unparse.Print.Code
import Unparse.Proofs.Layout.Leaves

/-! # Parts of code

What is written of a chain, from first to last: its statements and jumps, and
between them keywords, labels, expressions and line breaks. The document of the
chain is made of the documents of these parts in this order.
-/

namespace Unparse

open Layout (Doc)

inductive Item (σ : Type) where
  | statement (stmt : σ)
  | breaks (j : Jump)
  | continues (j : Jump)

/-- One thing that is written of a chain. -/
inductive Part where
  | newline
  | keyword (word : String)
  | label (name : String)
  | expression (code : ExprCode)
  | binding (site : BindingSite) (v : Occurrence)
  | caseLabel (key : Option Literal)
  | item (i : Item StmtCode)
  | clause (stmt : StmtCode)

def Place.exits {σ : Type} (p : Place) : List (Item σ) :=
  p.breakTo.toList.map .breaks ++ p.continueTo.toList.map .continues

def spokenItems {σ : Type} (silent : σ → Bool) (statements : List σ) : List (Item σ) :=
  (statements.filter fun stmt => !silent stmt).map .statement

namespace Style

variable (s : Style)

def jumpWord (keyword : String) (j : Jump) : String :=
  match j.label with
  | some name => keyword ++ s.lexicon.jumpSeparator ++ name ++ s.lexicon.terminator
  | none => keyword ++ s.lexicon.terminator

def itemDoc : Item StmtCode → Doc
  | .statement stmt => stmt.doc s
  | .breaks j => Doc.text (s.jumpWord "break" j)
  | .continues j => Doc.text (s.jumpWord "continue" j)

end Style

namespace Part

def doc (s : Style) : Part → Doc
  | newline => Doc.newline
  | keyword word => Doc.text word
  | label name => Doc.text (s.target.loopLabel name)
  | expression code => code.doc s
  | binding site v => Doc.text (s.target.declaration site v.name v.type)
  | caseLabel (some key) => Doc.text ("case " ++ s.target.literal key ++ ":")
  | caseLabel none => Doc.text "default:"
  | item i => s.itemDoc i
  | clause stmt => stmt.bodyDoc s

def item? : Part → Option (Item StmtCode)
  | item i => some i
  | clause stmt => some (.statement stmt)
  | _ => none

end Part

def leavesOf (s : Style) (ps : List Part) : List Doc := ps.flatMap fun p => (p.doc s).leaves

def itemsOf (ps : List Part) : List (Item StmtCode) := ps.filterMap Part.item?

section Parts

open Unparse.Part (newline keyword expression binding caseLabel item clause)

def Place.labelParts (p : Place) : List Part := p.label.toList.map .label

def Place.exitParts (p : Place) : List Part := p.exits.flatMap fun i => [newline, item i]

def leadParts (form : FormCode) : List Part := if form.isBlock then [] else [newline]

def lineParts (statements : List StmtCode) : List Part :=
  (spokenItems StmtCode.isSilent statements).flatMap fun i => [newline, item i]

def headParts (word : String) (condition : ExprCode) : List Part :=
  [keyword word, keyword "(", expression condition, keyword ")", keyword " "]

def bracedParts (ps : List Part) : List Part :=
  keyword "\x7b" :: ps ++ [newline, keyword "\x7d"]

def clauseParts (stmt : Option StmtCode) : List Part :=
  (stmt.toList.filter fun stmt => !stmt.isSilent).map clause

def countedParts (init : Option StmtCode) (condition : ExprCode) (update : Option StmtCode) :
    List Part :=
  keyword "for (" :: clauseParts init ++ [keyword "; ", expression condition, keyword ";"] ++
    (update.toList.map fun _ => keyword " ") ++ clauseParts update ++ [keyword ") "]

def loopVariableParts : List Occurrence → List Part
  | [] => [keyword "(", keyword ")"]
  | [v] => [binding .forEach v]
  | v :: vs =>
    keyword "(" :: binding .forEach v ::
      (vs.flatMap fun v => [keyword ", ", binding .forEach v]) ++ [keyword ")"]

variable (s : Style)

mutual

def Element.parts : Element → List Part
  | .mk form place =>
    (if s.writesAsWhile form then [] else place.labelParts) ++ formParts place form ++
      place.exitParts

def formParts (place : Place) : FormCode → List Part
  | .block statements => lineParts statements
  | .conditional condition whenTrue whenFalse =>
    headParts "if " condition ++ bracedParts (codeParts whenTrue) ++ elseParts whenFalse
  | .whileLoop condition body =>
    headParts "while " condition ++ bracedParts (codeParts body)
  | .doLoop condition body =>
    keyword "do " :: bracedParts (codeParts body) ++ [keyword " while ", keyword "(",
      expression condition, keyword ")", keyword s.lexicon.terminator]
  | .countedLoop init condition update body =>
    if s.lexicon.countedLoops then
      countedParts init condition update ++ bracedParts (codeParts body)
    else
      ((spokenItems StmtCode.isSilent init.toList).flatMap fun i => [item i, newline]) ++
        place.labelParts ++ headParts "while " condition ++
        bracedParts (codeParts body ++ lineParts update.toList)
  | .forEach vars container body =>
    keyword "for (" :: loopVariableParts vars ++
      [keyword (" " ++ s.lexicon.forEachKeyword ++ " "), expression container, keyword ") "] ++
      bracedParts (codeParts body)
  | .guarded body handlers cleanup =>
    keyword "try " :: bracedParts (codeParts body) ++ handlersParts handlers ++
      cleanupParts cleanup
  | .switch selector cases =>
    [keyword "switch ", keyword "(", expression selector, keyword ")", keyword " \x7b"] ++
      casesParts cases ++ [newline, keyword "\x7d"]
  | .select selector arms fallback =>
    [keyword (s.lexicon.selectKeyword ++ " "), keyword "(", expression selector, keyword ")",
      keyword " \x7b"] ++ armsParts arms ++
      [newline, keyword (s.lexicon.fallbackArm ++ " -> ")] ++ fallbackParts fallback ++
      [newline, keyword "\x7d"]

def codeParts : List Element → List Part
  | [] => []
  | e :: es => leadParts e.form ++ e.parts ++ codeParts es

def elseParts : Option (List Element) → List Part
  | none => []
  | some [] => keyword " else " :: bracedParts []
  | some [e] => keyword " else " :: bracedParts (leadParts e.form ++ e.parts)
  | some (e :: f :: es) =>
    if e.isEmptyBlock && f.form.isConditional then
      keyword " else " :: (f.parts ++ codeParts es)
    else
      keyword " else " :: bracedParts (leadParts e.form ++ e.parts ++
        (leadParts f.form ++ f.parts ++ codeParts es))

def handlersParts : List (Occurrence × List Element) → List Part
  | [] => []
  | (v, body) :: handlers =>
    [keyword " catch ", keyword "(", binding .handler v, keyword ")", keyword " "] ++
      bracedParts (codeParts body) ++ handlersParts handlers

def cleanupParts : Option (List Element) → List Part
  | none => []
  | some body => keyword " finally " :: bracedParts (codeParts body)

def fallbackParts : Option (List Element) → List Part
  | none => [keyword "\x7b\x7d"]
  | some body => bracedParts (codeParts body)

def casesParts : List (List (Option Literal) × List Element) → List Part
  | [] => []
  | (keys, body) :: cases =>
    (keys.flatMap fun key => [newline, caseLabel key]) ++ codeParts body ++ casesParts cases

def armsParts : List (ExprCode × List Element) → List Part
  | [] => []
  | (guard, body) :: arms =>
    [newline, keyword s.lexicon.armKeyword, expression guard, keyword " -> "] ++
      bracedParts (codeParts body) ++ armsParts arms

end

/-- The parts of a chain whose first construction may stay on the line that is
open. -/
def Code.parts (sameLine : Bool) : Code → List Part
  | [] => []
  | e :: es => (if sameLine then [] else leadParts e.form) ++ e.parts s ++ codeParts s es

end Parts

section Leaves

variable (s : Style)

@[simp] theorem leavesOf_nil : leavesOf s [] = [] := rfl

@[simp] theorem leavesOf_cons (p : Part) (ps : List Part) :
    leavesOf s (p :: ps) = (p.doc s).leaves ++ leavesOf s ps := rfl

@[simp] theorem leavesOf_append (ps qs : List Part) :
    leavesOf s (ps ++ qs) = leavesOf s ps ++ leavesOf s qs := List.flatMap_append

theorem leavesOf_flatMap {α : Type} (as : List α) (f : α → List Part) :
    leavesOf s (as.flatMap f) = as.flatMap fun a => leavesOf s (f a) := List.flatMap_assoc

theorem leavesOf_bracedParts (ps : List Part) {d : Doc} (h : leavesOf s ps = d.leaves) :
    leavesOf s (bracedParts ps) = (s.braced d).leaves := by
  simp [bracedParts, Style.braced, Part.doc, h]

theorem leavesOf_headParts (word : String) (condition : ExprCode) :
    leavesOf s (headParts word condition) =
      (Doc.text word ++ (condition.doc s).parens ++ Doc.text " ").leaves := by
  simp [headParts, Part.doc]

theorem leavesOf_labelParts (p : Place) : leavesOf s p.labelParts = (s.labelDoc p).leaves := by
  cases h : p.label <;> simp [Place.labelParts, Style.labelDoc, h, Part.doc]

theorem leavesOf_leadParts (form : FormCode) :
    leavesOf s (leadParts form) = (Style.leadDoc form).leaves := by
  unfold leadParts Style.leadDoc
  split <;> rfl

theorem leavesOf_exitParts (p : Place) : leavesOf s p.exitParts = (s.jumpsDoc p).leaves := by
  have hjump (keyword : String) (j : Option Jump) (i : Jump → Item StmtCode)
      (hi : ∀ j, s.itemDoc (i j) = Doc.text (s.jumpWord keyword j)) :
      leavesOf s ((j.toList.map i).flatMap fun i => [.newline, .item i]) =
        (s.jumpDoc keyword j).leaves := by
    rcases j with _ | ⟨_ | name⟩ <;> simp [Style.jumpDoc, Part.doc, hi, Style.jumpWord]
  rw [Place.exitParts, Place.exits, List.flatMap_append, leavesOf_append, Style.jumpsDoc,
    Doc.leaves_append, hjump "break" _ _ fun _ => rfl, hjump "continue" _ _ fun _ => rfl]

theorem leavesOf_lineParts (statements : List StmtCode) :
    leavesOf s (lineParts statements) = (s.blockDoc statements).leaves := by
  simp [lineParts, spokenItems, Style.blockDoc, leavesOf_flatMap, List.flatMap_map, Part.doc,
    Style.itemDoc]

theorem leavesOf_optional (stmt : Option StmtCode) (ps : Item StmtCode → List Part) {f : Doc → Doc}
    (h : ∀ stmt, leavesOf s (ps (.statement stmt)) = (f (stmt.doc s)).leaves) :
    leavesOf s ((spokenItems StmtCode.isSilent stmt.toList).flatMap ps) =
      (s.optional f stmt).leaves := by
  rcases stmt with _ | stmt
  · rfl
  · cases hsilent : stmt.isSilent <;> simp [spokenItems, Style.optional, hsilent, h]

theorem StmtCode.bodyDoc_of_isSilent {stmt : StmtCode} (h : stmt.isSilent = true) :
    stmt.bodyDoc s = Doc.empty := by
  unfold isSilent at h
  split at h
  · next stmt =>
    unfold Stmt.isSilent at h
    split at h
    · rfl
    · cases h
  · cases h

theorem leavesOf_clauseParts (stmt : Option StmtCode) :
    leavesOf s (clauseParts stmt) = stmt.toList.flatMap fun stmt => (stmt.bodyDoc s).leaves := by
  rcases stmt with _ | stmt
  · rfl
  · cases h : stmt.isSilent
    · simp [clauseParts, h, Part.doc]
    · simp [clauseParts, h, stmt.bodyDoc_of_isSilent s h]

theorem leavesOf_countedParts (init : Option StmtCode) (condition : ExprCode)
    (update : Option StmtCode) :
    leavesOf s (countedParts init condition update) =
      (s.countedHeader init (condition.doc s) update).leaves := by
  cases init <;> cases update <;>
    simp [countedParts, Style.countedHeader, leavesOf_clauseParts, Part.doc]

theorem leavesOf_loopVariableParts (vs : List Occurrence) :
    leavesOf s (loopVariableParts vs) = (s.loopVariables vs).leaves := by
  rcases vs with _ | ⟨v, _ | ⟨w, vs⟩⟩
  · simp [loopVariableParts, Style.loopVariables, Part.doc]
  · simp [loopVariableParts, Style.loopVariables, Part.doc]
  · simp [loopVariableParts, Style.loopVariables, Part.doc, leavesOf_flatMap, List.flatMap_map]

theorem leavesOf_caseLabels (keys : List (Option Literal)) :
    leavesOf s (keys.flatMap fun key => [.newline, .caseLabel key]) = (s.caseLabels keys).leaves := by
  rw [Style.caseLabels, Doc.leaves_concat, List.flatMap_map, leavesOf_flatMap]
  congr 1
  funext key
  cases key <;> simp [Part.doc]

mutual

theorem Element.leavesOf_parts (e : Element) : leavesOf s (e.parts s) = (e.doc s).leaves := by
  cases e with
  | mk form place =>
    rw [Element.parts, Element.doc]
    split <;> simp [leavesOf_formParts place form, leavesOf_exitParts, leavesOf_labelParts]

theorem leavesOf_formParts (place : Place) (form : FormCode) :
    leavesOf s (formParts s place form) = (formDoc s place form).leaves := by
  cases form with
  | block statements =>
    rw [formParts, formDoc, leavesOf_lineParts]
  | conditional condition whenTrue whenFalse =>
    simp [formParts, formDoc, leavesOf_headParts, leavesOf_elseParts whenFalse,
      leavesOf_bracedParts s _ (leavesOf_codeParts whenTrue)]
  | whileLoop condition body =>
    simp [formParts, formDoc, leavesOf_headParts,
      leavesOf_bracedParts s _ (leavesOf_codeParts body)]
  | doLoop condition body =>
    simp [formParts, formDoc, leavesOf_bracedParts s _ (leavesOf_codeParts body), Part.doc,
      Style.terminator]
  | countedLoop init condition update body =>
    rw [formParts, formDoc]
    split
    · simp [leavesOf_countedParts, leavesOf_bracedParts s _ (leavesOf_codeParts body)]
    · have hinit := leavesOf_optional s init (fun i => [.item i, .newline])
        (f := (· ++ Doc.newline)) fun stmt => by simp [Part.doc, Style.itemDoc]
      have hupdate : leavesOf s (lineParts update.toList) =
          (s.optional (Doc.newline ++ ·) update).leaves :=
        leavesOf_optional s update _ fun stmt => by simp [Part.doc, Style.itemDoc]
      have hbody : leavesOf s (codeParts s body ++ lineParts update.toList) =
          (codeDoc s body ++ s.optional (Doc.newline ++ ·) update).leaves := by
        simp [leavesOf_codeParts body, hupdate]
      simp [hinit, leavesOf_labelParts, leavesOf_headParts, leavesOf_bracedParts s _ hbody]
  | forEach vars container body =>
    simp [formParts, formDoc, leavesOf_loopVariableParts, Part.doc,
      leavesOf_bracedParts s _ (leavesOf_codeParts body)]
  | guarded body handlers cleanup =>
    simp [formParts, formDoc, Part.doc, leavesOf_bracedParts s _ (leavesOf_codeParts body),
      leavesOf_handlersParts handlers, leavesOf_cleanupParts cleanup]
  | switch selector cases =>
    simp [formParts, formDoc, Part.doc, leavesOf_casesParts cases]
  | select selector arms fallback =>
    simp [formParts, formDoc, Part.doc, leavesOf_armsParts arms, leavesOf_fallbackParts fallback]

theorem leavesOf_codeParts (code : List Element) :
    leavesOf s (codeParts s code) = (codeDoc s code).leaves := by
  cases code with
  | nil => rfl
  | cons e es =>
    simp [codeParts, codeDoc, Element.leavesOf_parts e, leavesOf_codeParts es, leavesOf_leadParts]

theorem leavesOf_elseParts (code : Option (List Element)) :
    leavesOf s (elseParts s code) = (elseDoc s code).leaves := by
  cases code with
  | none => rfl
  | some code =>
    cases code with
    | nil => simp [elseParts, elseDoc, Part.doc, leavesOf_bracedParts s [] (d := Doc.empty) rfl]
    | cons e code =>
      have he : leavesOf s (leadParts e.form ++ e.parts s) =
          (Style.leadDoc e.form ++ e.doc s).leaves := by
        simp [leavesOf_leadParts, Element.leavesOf_parts e]
      cases code with
      | nil =>
        simp [elseParts, elseDoc, Part.doc, leavesOf_bracedParts s _ he]
      | cons f es =>
        have hf : leavesOf s (f.parts s ++ codeParts s es) = (f.doc s ++ codeDoc s es).leaves := by
          simp [Element.leavesOf_parts f, leavesOf_codeParts es]
        have hall : leavesOf s (leadParts e.form ++ e.parts s ++
              (leadParts f.form ++ f.parts s ++ codeParts s es)) =
            (Style.leadDoc e.form ++ e.doc s ++
              (Style.leadDoc f.form ++ f.doc s ++ codeDoc s es)).leaves := by
          rw [leavesOf_append, he, Doc.leaves_append _ (_ ++ codeDoc s es), List.append_assoc,
            leavesOf_append, hf, leavesOf_leadParts]
          simp
        rw [elseParts, elseDoc]
        split
        · rw [leavesOf_cons, hf, Doc.leaves_append (Doc.text _), Part.doc]
        · rw [leavesOf_cons, leavesOf_bracedParts s _ hall, Doc.leaves_append (Doc.text _), Part.doc]

theorem leavesOf_handlersParts (handlers : List (Occurrence × List Element)) :
    leavesOf s (handlersParts s handlers) = (handlersDoc s handlers).leaves := by
  cases handlers with
  | nil => rfl
  | cons h handlers =>
    cases h with
    | mk v body =>
      simp [handlersParts, handlersDoc, Part.doc, leavesOf_handlersParts handlers,
        leavesOf_bracedParts s _ (leavesOf_codeParts body)]

theorem leavesOf_cleanupParts (code : Option (List Element)) :
    leavesOf s (cleanupParts s code) = (cleanupDoc s code).leaves := by
  cases code with
  | none => rfl
  | some body =>
    simp [cleanupParts, cleanupDoc, Part.doc, leavesOf_bracedParts s _ (leavesOf_codeParts body)]

theorem leavesOf_fallbackParts (code : Option (List Element)) :
    leavesOf s (fallbackParts s code) = (fallbackDoc s code).leaves := by
  cases code with
  | none => simp [fallbackParts, fallbackDoc, Part.doc]
  | some body => exact leavesOf_bracedParts s _ (leavesOf_codeParts body)

theorem leavesOf_casesParts (cases : List (List (Option Literal) × List Element)) :
    leavesOf s (casesParts s cases) = (casesDoc s cases).leaves := by
  cases cases with
  | nil => rfl
  | cons h cases =>
    cases h with
    | mk keys body =>
      simp [casesParts, casesDoc, leavesOf_caseLabels, leavesOf_codeParts body,
        leavesOf_casesParts cases]

theorem leavesOf_armsParts (arms : List (ExprCode × List Element)) :
    leavesOf s (armsParts s arms) = (armsDoc s arms).leaves := by
  cases arms with
  | nil => rfl
  | cons h arms =>
    cases h with
    | mk guard body =>
      simp [armsParts, armsDoc, Part.doc, leavesOf_armsParts arms,
        leavesOf_bracedParts s _ (leavesOf_codeParts body)]

end

/-- A document of code is made of the documents of its parts, in this order. -/
theorem Code.leavesOf_parts (sameLine : Bool) (code : Code) :
    leavesOf s (Code.parts s sameLine code) = (Code.doc s sameLine code).leaves := by
  cases code with
  | nil => rfl
  | cons e es =>
    cases sameLine <;>
      simp [Code.parts, Code.doc, Element.leavesOf_parts, leavesOf_codeParts, leavesOf_leadParts]

end Leaves

end Unparse
