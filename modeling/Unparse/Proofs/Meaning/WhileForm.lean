import Unparse.Proofs.Listing.Parts
import Unparse.Proofs.Meaning.Rounds

/-! # Counted loops as `while` loops

Where counted loops have no header, they are written as their initializer and a
`while` loop with the update behind its body. A `continue` that takes the rest
of a round then skips the update too. The two loops do the same if and only if
there is no update to skip or no round of the run is cut short.
-/

namespace Unparse.Execution

variable {σ ρ α : Type}

/-! ## The form of a `while` loop -/

/-- The `while` form of a counted loop. -/
def whileForm (init : Option StmtCode) (condition : ExprCode) (update : Option StmtCode)
    (body : Code) (place : Place) : Code :=
  [.mk (.block init.toList) {},
    .mk (.whileLoop condition (body ++ [.mk (.block update.toList) {}])) place]

mutual

def elementAsWhile : Element → Code
  | .mk (.countedLoop init condition update body) place =>
    whileForm init condition update (codeAsWhile body) place
  | .mk form place => [.mk (formAsWhile form) place]

def formAsWhile : FormCode → FormCode
  | .block stmts => .block stmts
  | .conditional condition whenTrue whenFalse =>
    .conditional condition (codeAsWhile whenTrue) (optionAsWhile whenFalse)
  | .whileLoop condition body => .whileLoop condition (codeAsWhile body)
  | .doLoop condition body => .doLoop condition (codeAsWhile body)
  | .countedLoop init condition update body =>
    .countedLoop init condition update (codeAsWhile body)
  | .forEach vars container body => .forEach vars container (codeAsWhile body)
  | .guarded body handlers cleanup =>
    .guarded (codeAsWhile body) (handlersAsWhile handlers) (optionAsWhile cleanup)
  | .switch selector cases => .switch selector (casesAsWhile cases)
  | .select selector arms fallback =>
    .select selector (armsAsWhile arms) (optionAsWhile fallback)

def codeAsWhile : List Element → Code
  | [] => []
  | e :: es => elementAsWhile e ++ codeAsWhile es

def optionAsWhile : Option (List Element) → Option Code
  | none => none
  | some code => some (codeAsWhile code)

def handlersAsWhile : List (Occurrence × List Element) → List (Occurrence × Code)
  | [] => []
  | (v, body) :: handlers => (v, codeAsWhile body) :: handlersAsWhile handlers

def casesAsWhile :
    List (List (Option Literal) × List Element) → List (List (Option Literal) × Code)
  | [] => []
  | (keys, body) :: cases => (keys, codeAsWhile body) :: casesAsWhile cases

def armsAsWhile : List (ExprCode × List Element) → List (ExprCode × Code)
  | [] => []
  | (guard, body) :: arms => (guard, codeAsWhile body) :: armsAsWhile arms

end

/-! ## What is written -/

section Written

variable {s : Style}

theorem codeParts_append (code code' : Code) :
    codeParts s (code ++ code') = codeParts s code ++ codeParts s code' := by
  induction code with
  | nil => rfl
  | cons e es ih => simp only [List.cons_append, codeParts, ih, List.append_assoc]

theorem parts_block (stmts : List StmtCode) :
    (Element.mk (.block stmts) {}).parts s = lineParts stmts := by
  simp [Element.parts, formParts, Style.writesAsWhile, Form.isCountedLoop, Place.labelParts,
    Place.exitParts, Place.exits]

theorem codeParts_block (stmts : List StmtCode) (code : Code) :
    codeParts s (.mk (.block stmts) {} :: code) = lineParts stmts ++ codeParts s code := by
  rw [codeParts, parts_block]
  rfl

theorem newline_init (init : Option StmtCode) :
    [.newline] ++ ((spokenItems StmtCode.isSilent init.toList).flatMap fun i =>
        [Part.item i, .newline]) =
      lineParts init.toList ++ [.newline] := by
  cases init with
  | none => rfl
  | some stmt => cases h : stmt.isSilent <;> simp [lineParts, spokenItems, h]

/-- A counted loop without header is written as its `while` form. -/
theorem codeParts_whileForm (hs : s.lexicon.countedLoops = false) (init : Option StmtCode)
    (condition : ExprCode) (update : Option StmtCode) (body : Code) (place : Place) :
    codeParts s (whileForm init condition update body place) =
      codeParts s [.mk (.countedLoop init condition update body) place] := by
  have hcounted : s.writesAsWhile (.countedLoop init condition update body) = true := by
    rw [Style.writesAsWhile, hs]
    rfl
  have hwhile (body : Code) : s.writesAsWhile (.whileLoop condition body) = false := rfl
  have hupdate : codeParts s (body ++ [.mk (.block update.toList) {}]) =
      codeParts s body ++ lineParts update.toList := by
    rw [codeParts_append, codeParts_block, codeParts, List.append_nil]
  rw [whileForm, codeParts_block]
  simp only [codeParts, Element.parts, formParts, hcounted, hwhile, hs, hupdate, Element.form,
    leadParts, Form.isBlock, Bool.false_eq_true, if_false, if_true, List.append_nil,
    List.nil_append]
  simp only [← List.append_assoc, newline_init]

theorem isCountedLoop_asWhile (form : FormCode) :
    (formAsWhile form).isCountedLoop = form.isCountedLoop := by
  cases form <;> rfl

theorem isBlock_asWhile (form : FormCode) : (formAsWhile form).isBlock = form.isBlock := by
  cases form <;> rfl

theorem codeParts_elementAsWhile (hs : s.lexicon.countedLoops = false) (form : FormCode)
    (place : Place) (rest : Code)
    (h : formParts s place (formAsWhile form) = formParts s place form) :
    codeParts s (elementAsWhile (.mk form place) ++ rest) =
      leadParts form ++ (Element.mk form place).parts s ++ codeParts s rest := by
  have hwritten : codeParts s (elementAsWhile (.mk form place)) =
      codeParts s [.mk (formAsWhile form) place] := by
    cases form with
    | countedLoop init condition update body => exact codeParts_whileForm hs ..
    | _ => rfl
  rw [codeParts_append, hwritten]
  simp only [codeParts, Element.parts, Element.form, leadParts, Style.writesAsWhile, h,
    isCountedLoop_asWhile, isBlock_asWhile, List.append_nil]
  rfl

def chained : Code → Bool
  | e :: f :: _ => e.isEmptyBlock && f.form.isConditional
  | _ => false

theorem elseParts_some (code : Code) :
    elseParts s (some code) = .keyword " else " ::
      if chained code then (codeParts s code.tail).tail else bracedParts (codeParts s code) := by
  rcases code with _ | ⟨e, _ | ⟨f, es⟩⟩
  · rfl
  · simp [elseParts, chained, codeParts]
  · rw [elseParts, chained]
    split
    · next h =>
      have hblock : f.form.isBlock = false := by
        cases hf : f.form <;> simp_all [Form.isConditional, Form.isBlock]
      simp [codeParts, leadParts, hblock]
    · simp [codeParts]

theorem codeAsWhile_of_chained {e : Element} {es : Code} (h : chained (e :: es) = true) :
    codeAsWhile (e :: es) = e :: codeAsWhile es := by
  cases es with
  | nil => cases h
  | cons f es =>
    have hempty : e.form.isEmptyBlock = true := by simp_all [chained, Element.isEmptyBlock]
    rcases e with ⟨form, place⟩
    cases form with
    | block stmts => rfl
    | _ => cases hempty

theorem chained_asWhile (code : Code) : chained (codeAsWhile code) = chained code := by
  rcases code with _ | ⟨⟨form, place⟩, rest⟩
  · rfl
  · cases form with
    | block stmts =>
      rcases rest with _ | ⟨⟨form', place'⟩, rest⟩
      · rfl
      · cases form' <;> rfl
    | countedLoop init condition update body =>
      rcases rest with _ | ⟨f, rest⟩
      · exact Bool.and_false _
      · exact Bool.and_false _
    | _ =>
      rcases rest with _ | ⟨⟨form', place'⟩, rest⟩
      · rfl
      · cases form' <;> rfl

mutual

theorem formParts_asWhile (hs : s.lexicon.countedLoops = false) (place : Place)
    (form : FormCode) : formParts s place (formAsWhile form) = formParts s place form := by
  cases form with
  | block stmts => rfl
  | conditional condition whenTrue whenFalse =>
    simp only [formAsWhile, formParts, codeParts_asWhile hs whenTrue,
      elseParts_asWhile hs whenFalse]
  | whileLoop condition body =>
    simp only [formAsWhile, formParts, codeParts_asWhile hs body]
  | doLoop condition body =>
    simp only [formAsWhile, formParts, codeParts_asWhile hs body]
  | countedLoop init condition update body =>
    simp only [formAsWhile, formParts, codeParts_asWhile hs body]
  | forEach vars container body =>
    simp only [formAsWhile, formParts, codeParts_asWhile hs body]
  | guarded body handlers cleanup =>
    simp only [formAsWhile, formParts, codeParts_asWhile hs body,
      handlersParts_asWhile hs handlers, cleanupParts_asWhile hs cleanup]
  | switch selector cases =>
    simp only [formAsWhile, formParts, casesParts_asWhile hs cases]
  | select selector arms fallback =>
    simp only [formAsWhile, formParts, armsParts_asWhile hs arms,
      fallbackParts_asWhile hs fallback]

theorem codeParts_asWhile (hs : s.lexicon.countedLoops = false) (code : List Element) :
    codeParts s (codeAsWhile code) = codeParts s code := by
  cases code with
  | nil => rfl
  | cons e es =>
    cases e with
    | mk form place =>
      rw [codeAsWhile, codeParts_elementAsWhile hs form place _ (formParts_asWhile hs place form),
        codeParts_asWhile hs es, codeParts]
      rfl

theorem elseParts_asWhile (hs : s.lexicon.countedLoops = false) (code : Option (List Element)) :
    elseParts s (optionAsWhile code) = elseParts s code := by
  cases code with
  | none => rfl
  | some code =>
    have hcode := codeParts_asWhile hs code
    rw [optionAsWhile, elseParts_some, elseParts_some, chained_asWhile, hcode]
    cases code with
    | nil => rfl
    | cons e es =>
      have hes := codeParts_asWhile hs es
      split
      · next h =>
        rw [codeAsWhile_of_chained h, List.tail_cons, List.tail_cons, hes]
      · rfl

theorem handlersParts_asWhile (hs : s.lexicon.countedLoops = false)
    (handlers : List (Occurrence × List Element)) :
    handlersParts s (handlersAsWhile handlers) = handlersParts s handlers := by
  cases handlers with
  | nil => rfl
  | cons h handlers =>
    cases h with
    | mk v body =>
      simp only [handlersAsWhile, handlersParts, codeParts_asWhile hs body,
        handlersParts_asWhile hs handlers]

theorem cleanupParts_asWhile (hs : s.lexicon.countedLoops = false)
    (code : Option (List Element)) :
    cleanupParts s (optionAsWhile code) = cleanupParts s code := by
  cases code with
  | none => rfl
  | some code => simp only [optionAsWhile, cleanupParts, codeParts_asWhile hs code]

theorem fallbackParts_asWhile (hs : s.lexicon.countedLoops = false)
    (code : Option (List Element)) :
    fallbackParts s (optionAsWhile code) = fallbackParts s code := by
  cases code with
  | none => rfl
  | some code => simp only [optionAsWhile, fallbackParts, codeParts_asWhile hs code]

theorem casesParts_asWhile (hs : s.lexicon.countedLoops = false)
    (cases : List (List (Option Literal) × List Element)) :
    casesParts s (casesAsWhile cases) = casesParts s cases := by
  cases cases with
  | nil => rfl
  | cons h cases =>
    cases h with
    | mk keys body =>
      simp only [casesAsWhile, casesParts, codeParts_asWhile hs body, casesParts_asWhile hs cases]

theorem armsParts_asWhile (hs : s.lexicon.countedLoops = false)
    (arms : List (ExprCode × List Element)) :
    armsParts s (armsAsWhile arms) = armsParts s arms := by
  cases arms with
  | nil => rfl
  | cons h arms =>
    cases h with
    | mk guard body =>
      simp only [armsAsWhile, armsParts, codeParts_asWhile hs body, armsParts_asWhile hs arms]

end

end Written

end Unparse.Execution
