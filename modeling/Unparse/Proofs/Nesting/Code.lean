import Unparse.Proofs.Branching.Else
import Unparse.Proofs.Nesting.Combinators

/-! # Indentation of code

The lines of each construction are indented by the levels of the braces and cases around
it if those of its branches are: a body between braces is one level deeper, and the body
of a case another one. What goes on behind an `else` stays on its level.
-/

namespace Unparse

open Layout (Doc)
open Layout.Doc (text)
open Unparse.Part (newline keyword label expression binding caseLabel item clause startsLine)

/-- Each construction of a chain shows its nesting. One that is rewritten to a loop
behind its initializer has to start a line. -/
def EachNests (s : Style) (code : Code) : Prop :=
  ∀ e ∈ code, Nests s (s.writesAsWhile e.form) (e.doc s) (e.parts s)

section Lines

variable {s : Style}

theorem nests_labelDoc (place : Place) : Nests s false (s.labelDoc place) place.labelParts := by
  refine .plain ?_ (leavesOf_labelParts s place)
  simp [Place.labelParts]

theorem nests_jumpsDoc (place : Place) : Nests s false (s.jumpsDoc place) place.exitParts := by
  have hjump (keyword : String) (j : Option Jump) (i : Jump → Item StmtCode)
      (hi : ∀ j, s.itemDoc (i j) = text (s.jumpWord keyword j)) :
      Nests s false (s.jumpDoc keyword j)
        ((j.toList.map i).flatMap fun i => [newline, item i]) := by
    rcases j with _ | j
    · exact .nil
    · have hdoc : s.jumpDoc keyword (some j) = Doc.newline ++ s.itemDoc (i j) := by
        rw [hi]
        rcases j with ⟨_ | name⟩ <;> rfl
      rw [hdoc]
      exact .ownLine (i j)
  rw [Place.exitParts, Place.exits, List.flatMap_append]
  exact (hjump "break" _ _ fun _ => rfl).append (hjump "continue" _ _ fun _ => rfl)

theorem nests_blockDoc (statements : List StmtCode) :
    Nests s false (s.blockDoc statements) (lineParts statements) := by
  rw [lineParts, spokenItems, List.flatMap_map]
  exact .concat fun stmt _ => .ownLine (.statement stmt)

theorem nests_optional (stmt : Option StmtCode) :
    Nests s false (s.optional (Doc.newline ++ ·) stmt) (lineParts stmt.toList) := by
  rcases stmt with _ | stmt
  · exact .nil
  · cases hsilent : stmt.isSilent with
    | true => simpa [Style.optional, lineParts, spokenItems, hsilent] using Nests.nil
    | false =>
      simpa [Style.optional, lineParts, spokenItems, hsilent, Style.itemDoc]
        using Nests.ownLine (s := s) (.statement stmt)

theorem nests_initialized (init : Option StmtCode) {d : Doc} {ps : List Part}
    (h : Nests s false d ps) (hd : d ≠ .empty) :
    Nests s true (s.optional (· ++ Doc.newline) init ++ d)
      (((spokenItems StmtCode.isSilent init.toList).flatMap fun i => [item i, newline]) ++ ps) := by
  rcases init with _ | stmt
  · simpa [Style.optional, spokenItems] using h.atStart
  · cases hsilent : stmt.isSilent with
    | true => simpa [Style.optional, spokenItems, hsilent] using h.atStart
    | false =>
      have hloop := h.atStart.line hd
      simpa [Style.optional, spokenItems, hsilent, Style.itemDoc] using
        Nests.assoc.2 ((Nests.item (s := s) (.statement stmt)).append hloop)

end Lines

section Heads

variable {s : Style}

theorem nests_head {word : String} (h : (keyword word).isInert = true) (condition : ExprCode) :
    Nests s false (text word ++ (condition.doc s).parens ++ text " ") (headParts word condition) := by
  refine .plain ?_ (leavesOf_headParts s word condition)
  simpa [headParts, armWords] using h

theorem isInert_terminator : (keyword s.lexicon.terminator).isInert = true := by
  unfold Style.lexicon
  cases s.target <;> decide

theorem isInert_countedParts (init : Option StmtCode) (condition : ExprCode)
    (update : Option StmtCode) : ∀ p ∈ countedParts init condition update, p.isInert = true := by
  have hclause (stmt : Option StmtCode) : ∀ p ∈ clauseParts stmt, p.isInert = true := by
    intro p hp
    obtain ⟨stmt, -, rfl⟩ := List.mem_map.1 hp
    rfl
  have hspace : ∀ p ∈ update.toList.map fun _ => keyword " ", p.isInert = true := by
    intro p hp
    obtain ⟨stmt, -, rfl⟩ := List.mem_map.1 hp
    decide
  simp only [countedParts, List.forall_mem_append, List.forall_mem_cons]
  exact ⟨⟨⟨⟨⟨rfl, hclause init⟩, by simp [armWords]⟩, hspace⟩, hclause update⟩, by simp [armWords]⟩

theorem isInert_forEachParts (vars : List Occurrence) (container : ExprCode) :
    ∀ p ∈ keyword "for (" :: loopVariableParts vars ++
      [keyword (" " ++ s.lexicon.forEachKeyword ++ " "), expression container, keyword ") "],
      p.isInert = true := by
  have hvars : ∀ p ∈ loopVariableParts vars, p.isInert = true := by
    intro p hp
    rcases vars with _ | ⟨v, _ | ⟨w, vs⟩⟩ <;>
      simp only [loopVariableParts, List.mem_append, List.mem_cons, List.mem_flatMap,
        List.not_mem_nil, or_false] at hp
    · rcases hp with rfl | rfl <;> rfl
    · rw [hp]
      rfl
    · rcases hp with (rfl | rfl | ⟨v, -, rfl | rfl⟩) | rfl <;> rfl
  have hword : (keyword (" " ++ s.lexicon.forEachKeyword ++ " ")).isInert = true := by
    unfold Style.lexicon
    cases s.target <;> decide
  simp only [List.forall_mem_append, List.forall_mem_cons]
  exact ⟨⟨rfl, hvars⟩, hword, rfl, rfl, by simp⟩

theorem nests_keyword {word : String} (h : (keyword word).isInert = true) :
    Nests s false (text word) [keyword word] :=
  .plain (by simpa using h) (by simp [Part.doc])

end Heads

section Labels

variable {s : Style} {j : Nat} (braces : List Bool)

theorem nestsAt_caseLabels (keys : List (Option Literal)) :
    NestsAt s j (true :: braces) (true :: braces) (s.blanks j (levels braces + 1)) false
      (s.caseLabels keys) (keys.flatMap fun key => [newline, caseLabel key]) := by
  have hlabel (key : Option Literal) (hkey : (caseLabel key).doc s ≠ .empty) :
      NestsAt s j (true :: braces) (true :: braces) (s.blanks j (levels braces + 1)) false
        (Doc.newline ++ (caseLabel key).doc s) [newline, caseLabel key] := by
    intro _ next line _ _
    refine ⟨none, nofun, ?_⟩
    rw [Doc.due_append, if_neg hkey]
    refine .lineBreak _ (Reading.single (by nofun) ?_ (by nofun) _ next)
    simp [Nesting.levelsAt, levels_cons]
  refine .concat fun key _ => ?_
  cases key with
  | none => exact hlabel none (by simp [Part.doc, text])
  | some key => exact hlabel (some key) (by simp [Part.doc, text])

theorem nestsAt_arm {holdsCases : Bool} {word : String}
    (hword : word ∈ armWords ∨ holdsCases = false ∧ (keyword word).isInert = true) {d : Doc}
    {ps : List Part} (hps : ∀ p ∈ ps, p.isInert = true) (hleaves : leavesOf s ps = d.leaves)
    (hd : text word ++ d ≠ .empty) :
    NestsAt s j (holdsCases :: braces) (false :: braces) (s.blanks j (levels braces + 1)) false
      (Doc.newline ++ (text word ++ d)) (newline :: keyword word :: ps) := by
  intro _ next line _ _
  have hstep : Nesting.step ⟨holdsCases :: braces, false⟩ (keyword word) =
        ⟨false :: braces, false⟩ ∧
      Nesting.levelsAt ⟨holdsCases :: braces, false⟩ (keyword word) = levels braces + 1 ∧
      (keyword word).startsLine = false := by
    rcases hword with hword | ⟨rfl, hinert⟩
    · simp only [armWords, List.mem_cons, List.not_mem_nil, or_false] at hword
      rcases hword with rfl | rfl <;>
        simp [Nesting.step, Nesting.levelsAt, armWords, startsLine, levels_cons]
    · obtain ⟨-, hstep, hlevels, hstarts⟩ := Part.step_of_isInert hinert ⟨false :: braces, false⟩
      exact ⟨hstep, hlevels.trans (levels_cons false braces), hstarts⟩
  obtain ⟨hstep, hlevels, hstarts⟩ := hstep
  set i := s.blanks j (levels braces + 1) with hi
  obtain ⟨line', hline', hrest⟩ := Reading.inert (s := s) (j := j) ⟨false :: braces, false⟩ none
    hps ((Doc.map_fst_due i next d).trans hleaves.symm) (by simp)
  refine ⟨line', hline', ?_⟩
  rw [Doc.due_append, if_neg hd, Doc.due_append]
  have hline (n : Nat) (hn : n ∈ some i) : n = s.blanks j
      (Nesting.levelsAt ⟨holdsCases :: braces, false⟩ (keyword word)) := by
    rw [hlevels, ← hi]
    exact (Option.mem_some.1 hn).symm
  have hmark := Reading.single (p := keyword word) (by simp) hline (by simp [hstarts]) i
    (if d = .empty then next else some i)
  rw [hstep] at hmark
  exact .lineBreak _ (hmark.append hrest)

theorem Style.marksArm {holdsCases : Bool} (hjava : holdsCases = true → s.target = .java) :
    (s.lexicon.armKeyword ∈ armWords ∨
        holdsCases = false ∧ (keyword s.lexicon.armKeyword).isInert = true) ∧
      (s.lexicon.fallbackArm ++ " -> " ∈ armWords ∨
        holdsCases = false ∧ (keyword (s.lexicon.fallbackArm ++ " -> ")).isInert = true) := by
  unfold Style.lexicon
  cases htarget : s.target with
  | java => exact ⟨.inl (by decide), .inl (by decide)⟩
  | kotlin =>
    have hnone : holdsCases = false := by
      by_contra hholds
      simp [htarget] at hjava
      exact hholds hjava
    exact ⟨.inr ⟨hnone, by decide⟩, .inr ⟨hnone, by decide⟩⟩

end Labels

theorem Style.writesAsWhile_of_isBlock (s : Style) {form : FormCode} (h : form.isBlock = true) :
    s.writesAsWhile form = false := by
  cases form <;> first | rfl | cases h

theorem Style.writesAsWhile_of_isConditional (s : Style) {form : FormCode}
    (h : form.isConditional = true) : s.writesAsWhile form = false := by
  cases form <;> first | rfl | cases h

section Branches

variable {s : Style} (hsize : s.indentSize < 0x8000000000000000)

theorem Element.doc_ne_empty (e : Element) (h : e.form.isBlock = false) : e.doc s ≠ .empty := by
  obtain ⟨form, place⟩ := e
  have hform : formDoc s place form ≠ .empty := by
    cases form with
    | block => cases h
    | countedLoop =>
      rw [formDoc]
      split <;> simp [Style.braced, text]
    | _ => simp [formDoc, Style.braced, text]
  simp [Element.doc, hform]

theorem EachNests.codeDoc {code : Code} (h : EachNests s code) :
    Nests s false (codeDoc s code) (codeParts s code) := by
  induction code with
  | nil => exact .nil
  | cons e es ih =>
    obtain ⟨he, hes⟩ := List.forall_mem_cons.1 h
    rw [Unparse.codeDoc, codeParts]
    refine Nests.append ?_ (ih hes)
    unfold Style.leadDoc leadParts
    split
    · next hblock =>
      rw [s.writesAsWhile_of_isBlock hblock] at he
      simpa using he
    · next hblock =>
      exact (he.atStart).line (e.doc_ne_empty (by simpa using hblock))

include hsize

theorem nests_cases {j : Nat} (braces : List Bool)
    {cases : List (List (Option Literal) × Code)} (h : ∀ case ∈ cases, EachNests s case.2) :
    NestsAt s j (true :: braces) (true :: braces) (s.blanks j (levels braces + 1)) false
      (casesDoc s cases) (casesParts s cases) := by
  induction cases with
  | nil => exact .nil
  | cons case cases ih =>
    obtain ⟨hcase, hcases⟩ := List.forall_mem_cons.1 h
    have hbody := hcase.codeDoc j (true :: braces)
    rw [levels_cons, if_pos rfl] at hbody
    rw [casesDoc, casesParts]
    exact ((nestsAt_caseLabels braces case.1).append (hbody.indented hsize)).append (ih hcases)

theorem EachNests.braced {code : Code} (h : EachNests s code) :
    Nests s false (s.braced (Unparse.codeDoc s code)) (bracedParts (codeParts s code)) :=
  h.codeDoc.braced hsize

theorem EachNests.armBody {code : Code} (h : EachNests s code) (j : Nat) (braces : List Bool) :
    NestsAt s j (false :: braces) (false :: braces) (s.blanks j (levels braces + 1)) false
      (s.braced (Unparse.codeDoc s code)) (bracedParts (codeParts s code)) := by
  have hbody := h.braced hsize j (false :: braces)
  rwa [levels_cons] at hbody

theorem nests_arms {j : Nat} (braces : List Bool) {holdsCases : Bool}
    (hjava : holdsCases = true → s.target = .java) {arms : List (ExprCode × Code)}
    (h : ∀ arm ∈ arms, EachNests s arm.2) :
    ∃ holdsCases', (holdsCases' = true → s.target = .java) ∧
      NestsAt s j (holdsCases :: braces) (holdsCases' :: braces) (s.blanks j (levels braces + 1))
        false (armsDoc s arms) (armsParts s arms) := by
  induction arms generalizing holdsCases with
  | nil => exact ⟨holdsCases, hjava, .nil⟩
  | cons arm arms ih =>
    obtain ⟨harm, harms⟩ := List.forall_mem_cons.1 h
    have hhead : NestsAt s j (holdsCases :: braces) (false :: braces)
        (s.blanks j (levels braces + 1)) false
        (Doc.newline ++ (text s.lexicon.armKeyword ++ (arm.1.doc s ++ text " -> ")))
        (newline :: keyword s.lexicon.armKeyword :: [expression arm.1, keyword " -> "]) :=
      nestsAt_arm braces (s.marksArm hjava).1 (by simp [armWords]) (by simp [Part.doc])
        (by simp [text])
    obtain ⟨holdsCases', hjava', hrest⟩ := @ih false nofun harms
    refine ⟨holdsCases', hjava', ?_⟩
    rw [armsDoc, armsParts]
    exact ((NestsAt.assoc.2 (NestsAt.assoc.2 hhead)).append (harm.armBody hsize j braces)).append
      hrest

theorem nests_select {j : Nat} (braces : List Bool) {holdsCases : Bool}
    (hjava : holdsCases = true → s.target = .java) {arms : List (ExprCode × Code)}
    {fallback : Option Code} (harms : ∀ arm ∈ arms, EachNests s arm.2)
    (hfallback : ∀ code ∈ fallback, EachNests s code) :
    ∃ holdsCases', NestsAt s j (holdsCases :: braces) (holdsCases' :: braces)
      (s.blanks j (levels braces + 1)) false
      (armsDoc s arms ++ Doc.newline ++ text (s.lexicon.fallbackArm ++ " -> ") ++
        fallbackDoc s fallback)
      (armsParts s arms ++ [newline, keyword (s.lexicon.fallbackArm ++ " -> ")] ++
        fallbackParts s fallback) := by
  obtain ⟨holdsCases', hjava', harms⟩ := nests_arms hsize (j := j) braces hjava harms
  have hhead : NestsAt s j (holdsCases' :: braces) (false :: braces)
      (s.blanks j (levels braces + 1)) false
      (Doc.newline ++ (text (s.lexicon.fallbackArm ++ " -> ") ++ Doc.empty))
      [newline, keyword (s.lexicon.fallbackArm ++ " -> ")] :=
    nestsAt_arm braces (s.marksArm hjava').2 nofun rfl (by simp [text])
  rw [Doc.append_empty] at hhead
  refine ⟨false, (NestsAt.assoc.2 (harms.append hhead)).append ?_⟩
  cases fallback with
  | none =>
    rw [fallbackDoc, fallbackParts]
    exact .plain (by simp [armWords]) (by simp [Part.doc])
  | some code => exact (hfallback code rfl).armBody hsize j braces

theorem nests_handlers {handlers : List (Occurrence × Code)}
    (h : ∀ handler ∈ handlers, EachNests s handler.2) :
    Nests s false (handlersDoc s handlers) (handlersParts s handlers) := by
  induction handlers with
  | nil => exact .nil
  | cons handler handlers ih =>
    obtain ⟨hhandler, hhandlers⟩ := List.forall_mem_cons.1 h
    rw [handlersDoc, handlersParts]
    refine (Nests.append (.plain ?_ ?_) (hhandler.braced hsize)).append (ih hhandlers)
    · simp [armWords]
    · simp [Part.doc]

theorem nests_else {branch : Option Code} (h : ∀ code ∈ branch, EachNests s code) :
    Nests s false (elseDoc s branch) (elseParts s branch) := by
  have hword : Nests s false (text " else ") [keyword " else "] := nests_keyword (by decide)
  rcases branch with _ | ⟨_ | ⟨e, _ | ⟨f, es⟩⟩⟩
  · exact .nil
  · exact hword.append (Nests.nil.braced hsize)
  · rw [elseDoc, elseParts]
    have hbody : Nests s false (s.braced (Style.leadDoc e.form ++ e.doc s))
        (bracedParts (leadParts e.form ++ e.parts s)) := by
      simpa [codeDoc, codeParts] using (h [e] rfl).braced hsize
    exact hword.append hbody
  · have hcode := h _ rfl
    rw [elseDoc, elseParts]
    split
    · next hcollapse =>
      have hf := hcode f (by simp)
      have hplain : s.writesAsWhile f.form = false :=
        s.writesAsWhile_of_isConditional (Bool.and_eq_true_iff.1 hcollapse).2
      rw [hplain] at hf
      have hes : EachNests s es := fun e he => hcode e (by simp [he])
      exact hword.append (hf.append hes.codeDoc)
    · exact hword.append (hcode.braced hsize)

theorem nests_cleanup {cleanup : Option Code} (h : ∀ code ∈ cleanup, EachNests s code) :
    Nests s false (cleanupDoc s cleanup) (cleanupParts s cleanup) := by
  have hword : Nests s false (text " finally ") [keyword " finally "] := nests_keyword (by decide)
  cases cleanup with
  | none => exact .nil
  | some code => exact hword.append ((h code rfl).braced hsize)

/-- A counted loop, or the loop that it is rewritten to behind its initializer. -/
theorem nests_countedLoop (place : Place) {init update : Option StmtCode} {condition : ExprCode}
    {body : Code} (hbody : EachNests s body) :
    Nests s (s.writesAsWhile (.countedLoop init condition update body))
      (formDoc s place (.countedLoop init condition update body))
      (formParts s place (.countedLoop init condition update body)) := by
  rw [formDoc, formParts]
  split
  · next hcounted =>
    have hplain : s.writesAsWhile (.countedLoop init condition update body) = false := by
      simp [Style.writesAsWhile, hcounted]
    rw [hplain]
    exact Nests.append (.plain (isInert_countedParts init condition update)
      (leavesOf_countedParts s init condition update)) (hbody.braced hsize)
  · next hcounted =>
    have hwhile : s.writesAsWhile (.countedLoop init condition update body) = true := by
      simp [Style.writesAsWhile, Form.isCountedLoop, hcounted]
    rw [hwhile]
    have hhead : Nests s false
        (s.labelDoc place ++ text "while " ++ (condition.doc s).parens ++ text " ")
        (place.labelParts ++ headParts "while " condition) :=
      Nests.assoc.2 (Nests.assoc.2 ((nests_labelDoc place).append
        (Nests.assoc.1 (nests_head (by decide) condition))))
    have hloop := hhead.append ((hbody.codeDoc.append (nests_optional update)).braced hsize)
    simp only [Nests.assoc] at hloop ⊢
    simpa only [List.append_assoc] using nests_initialized init hloop (by simp [text])

theorem nests_form (place : Place) {form : FormCode}
    (h : ∀ code ∈ form.branches, EachNests s code) :
    Nests s (s.writesAsWhile form) (formDoc s place form) (formParts s place form) := by
  cases form with
  | block statements =>
    rw [formDoc, formParts]
    exact nests_blockDoc statements
  | conditional e whenTrue whenFalse =>
    have hbranches := List.forall_mem_cons.1 h
    rw [formDoc, formParts]
    exact ((nests_head (by decide) e).append (hbranches.1.braced hsize)).append
      (nests_else hsize fun code hcode => hbranches.2 code (by simpa using hcode))
  | whileLoop e body =>
    rw [formDoc, formParts]
    exact (nests_head (by decide) e).append ((h body (by simp [Form.branches])).braced hsize)
  | doLoop e body =>
    have hword : Nests s false (text "do ") [keyword "do "] := nests_keyword (by decide)
    have hcondition : Nests s false (text " while " ++ ((e.doc s).parens ++ s.terminator))
        [keyword " while ", keyword "(", expression e, keyword ")",
          keyword s.lexicon.terminator] :=
      .plain (by simpa [armWords] using isInert_terminator (s := s))
        (by simp [Part.doc, Style.terminator])
    rw [formDoc, formParts]
    exact Nests.assoc.2 (Nests.assoc.2
      ((hword.append ((h body (by simp [Form.branches])).braced hsize)).append hcondition))
  | countedLoop init e update body =>
    exact nests_countedLoop hsize place (h body (by simp [Form.branches]))
  | forEach vars e body =>
    rw [formDoc, formParts]
    refine Nests.append (.plain ?_ ?_) ((h body (by simp [Form.branches])).braced hsize)
    · exact isInert_forEachParts vars e
    · simp [Part.doc, leavesOf_loopVariableParts]
  | guarded body handlers cleanup =>
    have hword : Nests s false (text "try ") [keyword "try "] := nests_keyword (by decide)
    obtain ⟨hbody, hbranches⟩ := List.forall_mem_cons.1 h
    rw [formDoc, formParts]
    refine ((hword.append (hbody.braced hsize)).append
      (nests_handlers hsize fun handler hmem => hbranches _ ?_)).append
        (nests_cleanup hsize fun code hcode => hbranches _ ?_)
    · simp [List.mem_map_of_mem hmem]
    · simpa using .inr hcode
  | switch e cases =>
    rw [formDoc, formParts]
    exact Nests.structured hsize (fun _ => rfl) (fun _ => rfl) rfl e fun j braces =>
      ⟨true, nests_cases hsize braces fun case hmem => h _ (List.mem_map_of_mem hmem)⟩
  | select e arms fallback =>
    have hword (braces : List Bool) :
        Nesting.step ⟨braces, false⟩ (keyword (s.lexicon.selectKeyword ++ " ")) =
            ⟨braces, decide (s.target = .java)⟩ ∧
          Nesting.levelsAt ⟨braces, false⟩ (keyword (s.lexicon.selectKeyword ++ " ")) =
            levels braces ∧ (keyword (s.lexicon.selectKeyword ++ " ")).startsLine = false := by
      unfold Style.lexicon
      cases s.target <;> exact ⟨rfl, rfl, rfl⟩
    rw [formDoc, formParts]
    have hbody (j : Nat) (braces : List Bool) := nests_select hsize (j := j) braces
      (of_decide_eq_true (p := s.target = .java))
      (fun arm hmem => h arm.2 (List.mem_append_left _ (List.mem_map_of_mem hmem)))
      (fun code hcode => h code (List.mem_append_right _ (by simpa using hcode)))
    have hselect := Nests.structured hsize (fun braces => (hword braces).1)
      (fun braces => (hword braces).2.1) (hword []).2.2 e hbody
    change Nests s false _ _
    simpa only [List.append_assoc] using hselect

theorem eachNests (code : Code) : EachNests s code := by
  induction code using Code.induct with
  | nil => exact nofun
  | cons form place es ihbranches ihes =>
    refine List.forall_mem_cons.2 ⟨?_, ihes⟩
    have hform := nests_form hsize place ihbranches
    rw [Element.doc, Element.parts]
    change Nests s (s.writesAsWhile form) _ _
    split
    · next hwhile => simpa using hform.append (nests_jumpsDoc place)
    · next hplain =>
      rw [Bool.eq_false_of_not_eq_true hplain] at hform ⊢
      exact ((nests_labelDoc place).append hform).append (nests_jumpsDoc place)

/-- Code is indented by the levels of the braces and cases around each of its lines,
wherever it is placed. -/
theorem nests_codeDoc (code : Code) : Nests s false (codeDoc s code) (codeParts s code) :=
  (eachNests hsize code).codeDoc

end Branches

end Unparse
