import Unparse.Proofs.Reading.Chained
import Unparse.Proofs.Reading.Printed
import Unparse.Proofs.Walk.Ensures
import Unparse.Proofs.Walk.Settled

/-! # Compound assignments as they are read

A compound assignment that the language has no operator for is written as the assignment
of an operation whose left operand repeats the target. An amount that repeats an
associative operator stands without brackets, so its operands are read as further ones of
the same chain. What is read does what the compound assignment does.
-/

namespace Unparse

open Layout (Doc)
open Layout.Doc (text)
open Walking

variable {κ : Type}

/-- A restated compound assignment as the assignment that is read. -/
def StmtCode.asAssignment : StmtCode → StmtCode
  | restated op place again amount => plain (.assign place (again.asWritten op amount))
  | code => code

namespace Reading

variable {c : Context κ} {op : BinaryOp} {t : Target}

section Resolving

theorem resolveAll_append (es es' : List (Expr VariableId κ)) :
    Expr.resolveAll c (es ++ es') =
      do return (← Expr.resolveAll c es) ++ (← Expr.resolveAll c es') := by
  induction es with
  | nil => simp [Expr.resolveAll]
  | cons e es ih => simp [Expr.resolveAll, ih]

theorem resolveAll_operands (e : Expr VariableId κ) :
    Expr.resolveAll c (e.operands op) = do return (← e.resolve c).operands op := by
  induction e using Expr.induct with
  | binary op' l r ihl ihr =>
    by_cases h : op' = op
    · simp [Expr.operands, Expr.resolve, h, resolveAll_append, ihl, ihr]
    · simp [Expr.operands, Expr.resolve, Expr.resolveAll, h]
  | createArray element dimensions initializer =>
    cases initializer <;> simp [Expr.operands, Expr.resolve, Expr.resolveAll]
  | call receiver checked function args =>
    by_cases h : c.body.isThis receiver = true <;>
      simp [Expr.operands, Expr.resolve, Expr.resolveAll, h]
  | compound op' target amount =>
    cases h : (c.target.compoundToken? op').isNone <;>
      simp [Expr.operands, Expr.resolve, Expr.resolveAll, h]
  | anonymous cls args =>
    by_cases h : (c.view cls).interface.isSome = true <;>
      simp [Expr.operands, Expr.resolve, Expr.resolveAll, h]
  | _ => simp [Expr.operands, Expr.resolve, Expr.resolveAll]

theorem resolveAll_links (e : Expr VariableId κ) :
    Expr.resolveAll c (e.links op) = do return (← e.resolve c).links op := by
  by_cases h : op.isAssociative = true
  · simpa [Expr.links, h] using resolveAll_operands e
  · simp [Expr.links, h, Expr.resolveAll]

theorem resolve_foldl (es : List (Expr VariableId κ)) (l : Expr VariableId κ) :
    (es.foldl (.binary op) l).resolve c = do
      let l ← l.resolve c
      return (← Expr.resolveAll c es).foldl (.binary op) l := by
  induction es generalizing l with
  | nil => simp [Expr.resolveAll]
  | cons e es ih => simp [Expr.resolveAll, Expr.resolve, ih]

/-- The operation as it is written is resolved as its operands are. -/
theorem resolve_asWritten (l r : Expr VariableId κ) :
    (l.asWritten op r).resolve c = do return (← l.resolve c).asWritten op (← r.resolve c) := by
  simp [Expr.asWritten, resolve_foldl, resolveAll_links]

/-- What brackets and chains of code depend on. -/
structure Alike (t : Target) (op : BinaryOp) (e : Expr VariableId κ) (code : ExprCode) :
    Prop where
  operation : code.operation? = e.operation?
  target : isTarget code = isTarget e
  mixes : code.mixes t op = e.mixes t op

theorem ensures_alike (t : Target) (op : BinaryOp) (e : Expr VariableId κ) :
    Ensures (e.resolve c) (Alike t op e) := by
  induction e using Expr.induct with
  | const value => exact .pure ⟨rfl, by cases value <;> rfl, rfl⟩
  | binary op' l r ihl ihr =>
    rw [Expr.resolve]
    refine ihl.bind fun l' hl => ihr.map fun r' hr => ⟨rfl, rfl, ?_⟩
    simp only [Expr.mixes, hl.operation, hl.mixes, hr.mixes]
  | ternary e l r =>
    rw [Expr.resolve]
    exact (Ensures.trivial _).bind fun _ _ => (Ensures.trivial _).bind fun _ _ =>
      (Ensures.trivial _).map fun _ _ => ⟨rfl, rfl, rfl⟩
  | staticField qualifier name => exact .pure ⟨rfl, rfl, rfl⟩
  | call receiver checked function args =>
    rw [Expr.resolve]
    split
    · exact (Ensures.trivial _).map fun _ _ => ⟨rfl, rfl, rfl⟩
    · exact (Ensures.trivial _).bind fun _ _ =>
        (Ensures.trivial _).map fun _ _ => ⟨rfl, rfl, rfl⟩
  | createArray element dimensions initializer =>
    cases initializer <;> rw [Expr.resolve] <;>
      exact (Ensures.trivial _).map fun _ _ => ⟨rfl, rfl, rfl⟩
  | index array position =>
    rw [Expr.resolve]
    exact (Ensures.trivial _).bind fun _ _ =>
      (Ensures.trivial _).map fun _ _ => ⟨rfl, rfl, rfl⟩
  | compound op' target amount =>
    have hparts : Ensures
        (do return (Expr.compound op' (← target.resolve c) (← amount.resolve c) : ExprCode))
        (Alike t op (.compound op' target amount)) :=
      (Ensures.trivial _).bind fun _ _ => (Ensures.trivial _).map fun _ _ => ⟨rfl, rfl, rfl⟩
    rw [Expr.resolve]
    split
    · exact (Ensures.trivial _).bind fun _ _ => hparts
    · exact hparts
  | anonymous cls args =>
    rw [Expr.resolve]
    split <;> exact (Ensures.trivial _).bind fun _ _ =>
      (Ensures.trivial _).map fun _ _ => ⟨rfl, rfl, rfl⟩
  | _ =>
    rw [Expr.resolve]
    exact (Ensures.trivial _).map fun _ _ => ⟨rfl, rfl, rfl⟩

end Resolving

section Written

variable {s : Style} {place again amount : ExprCode}

/-- The code is written as an assignment to `place`. Its value is an operation on what is
in `again` and the operands of the amount, which are combined from the left. -/
structure IsAssignment (s : Style) (op : BinaryOp) (code : StmtCode)
    (place again amount : ExprCode) : Prop where
  words : (code.doc s).leaves =
    (place.doc s).leaves ++ .word " = " :: (again.doc s).leaves ++
      (amount.links op).flatMap fun e => (linkDoc s op e).leaves
  groups (ts : ExprCode → List Token) (x : ExprCode → Tree)
    (h : ∀ e ∈ again :: amount.links op, IsWhole s.target op (ts e) (x e)) :
    run s.target ⟨.operand, []⟩
        (ts again ++ chainTokens s.target op ((amount.links op).map ts)) =
      some (((amount.links op).map x).foldl (.binary op) (x again))
  reads (hplace : ReadsBack s.target place) (hagain : ReadsBack s.target again)
    (hamount : ReadsBack s.target amount) (width : Nat) (hwidth : (code.doc s).flatWidth ≤ width) :
    ∃ left right, (code.doc s).render width = left ++ " = " ++ right ∧
      read s.target left = some (codeTree s.target place) ∧
      read s.target right = some
        (((amount.links op).map (codeTree s.target)).foldl (.binary op) (codeTree s.target again))

theorem doc_restated (hs : s.target = .kotlin) (hplace : isTarget place = true) :
    (StmtCode.restated op place again amount).doc s =
      place.doc s ++ text " = " ++ (Expr.binary op again amount).doc s := by
  have hopen : s.operand place.operation? (.compound op) true (place.doc s) = place.doc s := by
    rw [operand_eq, encloses_of_isTarget hplace (hs ▸ show 1 < 15 by decide)]
    rfl
  have hend : s.terminator = Doc.empty := by rw [Style.terminator, Style.lexicon, hs]; rfl
  have hsign : " " ++ s.target.token .assign ++ " " = " = " := by rw [hs]; rfl
  rw [StmtCode.doc, StmtCode.bodyDoc, hopen, hend, hsign, Layout.Doc.append_empty, Expr.doc]
  rfl

theorem render_restated (hs : s.target = .kotlin) (hplace : isTarget place = true)
    (hplaceBack : ReadsBack s.target place)
    (hvalueBack : ReadsBack s.target (.binary op again amount)) {width : Nat}
    (hwidth : ((StmtCode.restated op place again amount).doc s).flatWidth ≤ width) :
    ((StmtCode.restated op place again amount).doc s).render width =
      String.ofList (place.doc s).flat ++ " = " ++
        String.ofList ((Expr.binary op again amount).doc s).flat := by
  have hline := (isSpelled_of_isReadable hplaceBack).line
  have hspelled := isSpelled_of_isReadable hvalueBack
  obtain ⟨last, hlast, hblank⟩ := hspelled.last
  have hflat : ((StmtCode.restated op place again amount).doc s).flat =
      (place.doc s).flat ++ " = ".toList ++ ((Expr.binary op again amount).doc s).flat := by
    simp [doc_restated hs hplace]
  have hisLine : ((StmtCode.restated op place again amount).doc s).IsLine false := by
    simp [doc_restated hs hplace, isLine_doc hplaceBack, isLine_doc hvalueBack]
  have hend : ((StmtCode.restated op place again amount).doc s).flat.getLast? = some last := by
    rw [hflat, List.getLast?_append, hlast]
    rfl
  rw [Doc.render_line hisLine hwidth (by simp [hflat, hline, hspelled.line]) hend hblank, hflat,
    String.ofList_append, String.ofList_append]
  rfl

/-- The value of an assignment, in which the chain of the amount goes on. -/
theorem read_value (hagain : isTarget again = true) (hagainBack : ReadsBack s.target again)
    (hamountBack : ReadsBack s.target amount) (h : amount.mixes s.target op = false) :
    read s.target (String.ofList ((Expr.binary op again amount).doc s).flat) = some
      (((amount.links op).map (codeTree s.target)).foldl (.binary op)
        (codeTree s.target again)) := by
  have hvalueBack : ReadsBack s.target (.binary op again amount) := by
    simp only [ReadsBack, isReadable, hagainBack, hamountBack, Bool.and_self]
  have hwhole : ∀ e ∈ again :: amount.links op,
      IsWhole s.target op (operandTokens s.target op e) (codeTree s.target e) :=
    List.forall_mem_cons.mpr ⟨isWhole_operandTokens hagainBack, fun e he =>
      isWhole_operandTokens (readsBack_links hamountBack e he)⟩
  have hfirst : enclosed (encloses s.target again.operation? (.binary op) true)
      (tokens s.target again) = operandTokens s.target op again := by
    simp only [operandTokens, encloses_binary_of_isTarget hagain]
  rw [read, tokensOf_flat hvalueBack, tokens_binary again h, hfirst, run_links hwhole]

theorem isAssignment_restated (hs : s.target = .kotlin) (hplace : isTarget place = true)
    (hagain : isTarget again = true) (h : amount.mixes s.target op = false) :
    IsAssignment s op (.restated op place again amount) place again amount where
  words := by
    rw [doc_restated hs hplace, Layout.Doc.leaves_append, leaves_binary again h, leaves_operand,
      encloses_binary_of_isTarget hagain]
    simp
  groups ts x hwhole := run_links hwhole
  reads hplaceBack hagainBack hamountBack width hwidth := by
    have hvalueBack : ReadsBack s.target (.binary op again amount) := by
      simp only [ReadsBack, isReadable, hagainBack, hamountBack, Bool.and_self]
    exact ⟨_, _, render_restated hs hplace hplaceBack hvalueBack hwidth, read_flat hplaceBack,
      read_value hagain hagainBack hamountBack h⟩

end Written

section WrittenOut

variable {target amount : Expr VariableId κ}

/-- A compound assignment is written as an assignment, and runs as what is read. -/
structure WrittenOut (c : Context κ) (op : BinaryOp) (target amount : Expr VariableId κ) :
    Prop where
  /-- It is printed from the same parts as the assignment, and fails as that does. -/
  resolved : (Stmt.assign target (target.asWritten op amount)).resolve c =
    do return (← (Stmt.eval (.compound op target amount)).resolve c).asAssignment
  printed {code : StmtCode} {sc sc' : Scope}
    (hrun : ((Stmt.eval (.compound op target amount)).resolve c).run.run sc = (.ok code, sc')) :
    ∃ place again given, code = .restated op place again given ∧
      (target.Declared c.body sc.declared → again = place) ∧
      ∀ s : Style, s.target = c.target → IsAssignment s op code place again given
  /-- From every state both come to the same end and do the same on the way. -/
  executed {σ ε α δ : Type} (m : Assigning.Memory VariableId κ σ ε α δ) :
    m.assign target (target.asWritten op amount) = m.assignCompound op target amount ∧
      (m.assignCompound op target amount).isSome

theorem eq_kotlin_of_compoundToken? (h : t.compoundToken? op = none)
    (hop : (op.isArithmetic || op.isBitwise) = true) : t = .kotlin ∧ op.isBitwise = true := by
  cases t <;> cases op <;> first | exact ⟨rfl, rfl⟩ | cases h; done | cases hop

theorem resolve_restated (htoken : c.target.compoundToken? op = none)
    (hpure : target.isPure = true) :
    (Stmt.eval (.compound op target amount)).resolve c =
      do return .restated op (← target.resolve c) (← target.resolve c) (← amount.resolve c) := by
  simp [Stmt.resolve, htoken, hpure]

/-- If its variables are declared, both copies of the target are the same. -/
theorem meets_restated {D : KeySet} {sc : Scope} {w v : Walking ExprCode} (hw : Settled D w)
    (hsc : sc.declared = D) :
    Meets sc (do return StmtCode.restated op (← w) (← w) (← v))
      (fun code _ => ∃ place given, code = .restated op place place given) fun _ _ => True := by
  obtain ⟨result, hw⟩ := hw
  rw [meets_bind]
  refine (hw sc hsc).mono ?_ fun _ _ _ => trivial
  rintro place s ⟨hplace, hs⟩
  rw [meets_bind]
  refine (hw s hs).mono ?_ fun _ _ _ => trivial
  rintro again s' ⟨hagain, -⟩
  obtain rfl : again = place := Except.ok.inj (hagain.symm.trans hplace)
  exact ((Ensures.trivial v).map fun given _ => ⟨again, given, rfl⟩) s'

theorem ensures_restated (hplace : isTarget target = true)
    (hmixes : amount.mixes t op = false) :
    Ensures
      (do
        return StmtCode.restated op (← target.resolve c) (← target.resolve c)
          (← amount.resolve c))
      fun code => ∃ place again given, code = .restated op place again given ∧
        isTarget place = true ∧ isTarget again = true ∧
        given.mixes t op = false :=
  (ensures_alike t op target).bind fun place hplace' =>
    (ensures_alike t op target).bind fun again hagain =>
      (ensures_alike t op amount).map fun given hgiven =>
        ⟨place, again, given, rfl, hplace'.target.trans hplace, hagain.target.trans hplace,
          hgiven.mixes.trans hmixes⟩

/-- A compound assignment to a pure target that the language has no operator for is
written out, and what is read does what it does. -/
theorem writtenOut_of_isPure (htoken : c.target.compoundToken? op = none)
    (hop : (op.isArithmetic || op.isBitwise) = true) (htarget : isTarget target = true)
    (hpure : target.isPure = true) (hmixes : amount.mixes c.target op = false) :
    WrittenOut c op target amount where
  resolved := by
    rw [resolve_restated htoken hpure, Stmt.resolve]
    simp [resolve_asWritten, StmtCode.asAssignment]
  printed {code sc sc'} hrun := by
    rw [resolve_restated htoken hpure] at hrun
    obtain ⟨place, again, given, rfl, hplace, hagain, hgiven⟩ :=
      (ensures_restated htarget hmixes).result hrun
    refine ⟨place, again, given, rfl, fun hdeclared => ?_, fun s hs => ?_⟩
    · obtain ⟨place', given', heq⟩ :=
        (meets_restated (settled_resolve hpure hdeclared) rfl).result hrun
      cases heq
      rfl
    · have hkotlin := (eq_kotlin_of_compoundToken? htoken hop).1
      exact isAssignment_restated (hs.trans hkotlin) hplace hagain (hs ▸ hgiven)
  executed m := by
    refine ⟨m.assign_asWritten (eq_kotlin_of_compoundToken? htoken hop).2 hpure, ?_⟩
    rw [Assigning.Memory.assignCompound, Option.isSome_map]
    cases target with
    | const value => cases value <;> first | rfl | cases htarget
    | var | field | staticField | index => rfl
    | _ => cases htarget

end WrittenOut

def bareKotlin : Context Empty where
  target := .kotlin
  body := {}
  view := nofun

def element : Expr VariableId Empty := .index (.const (.name "a")) (.const (.name "i"))

def masked : Expr VariableId Empty := .binary .bitAnd (.apply "f" []) (.const (.int 3))

theorem writtenOut_element :
    (∃ code sc', ((Stmt.eval (.compound .bitAnd element masked)).resolve bareKotlin).run.run {} =
        (.ok code, sc') ∧
      (code.doc ⟨.kotlin, 4⟩).render 80 = "a[i] = a[i] and f() and 3") ∧
      WrittenOut bareKotlin .bitAnd element masked :=
  ⟨⟨_, _, rfl, rfl⟩, writtenOut_of_isPure rfl rfl rfl rfl rfl⟩

/-- An amount that repeats the operator is no operand of its own in what is read. -/
theorem exists_amount_regrouped :
    ∃ place again given sc',
      ((Stmt.eval (.compound .bitAnd element masked)).resolve bareKotlin).run.run {} =
        (.ok (.restated .bitAnd place again given), sc') ∧
      ((StmtCode.restated .bitAnd place again given).doc ⟨.kotlin, 4⟩).render 80 =
        "a[i] = a[i] and f() and 3" ∧
      read .kotlin "a[i] and f() and 3" ≠
        some (.binary .bitAnd (codeTree .kotlin again) (codeTree .kotlin given)) := by
  refine ⟨_, _, _, _, rfl, rfl, ?_⟩
  intro h
  cases h

end Reading

end Unparse
