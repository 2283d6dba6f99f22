import Unparse.Proofs.Names.Tokens
import Unparse.Proofs.Walk.Ensures

/-! # Tokens of resolved code

The tokens of a chain write its document if the chain has been unfolded. Then the
arguments of an anonymous class that implements an interface have been dropped.
-/

namespace Unparse

open Layout (Doc)
open Layout.Doc (text)
open Token (Spell SpellAll spell_plain)
open Walking

variable {κ : Type} {c : Context κ} (s : Style)

def Expr.Spelled (e : ExprCode) : Prop := Spell s (e.tokens s) (e.doc s) e.visits

def Expr.AllSpelled (es : List ExprCode) : Prop :=
  SpellAll s (allTokens s es) (docs s es) (allVisits es)

def StmtCode.Spelled (stmt : StmtCode) : Prop :=
  Spell s (stmt.tokens s) (stmt.bodyDoc s) stmt.visits

section Resolve

variable {s}

theorem Expr.Spelled.operand {e : ExprCode} (h : e.Spelled s) (around : Operation)
    (associative : Bool) :
    Spell s (Token.operand s e.operation? around associative (e.tokens s))
      (s.operand e.operation? around associative (e.doc s)) e.visits := Spell.operand h _ _ _

theorem Expr.Spelled.owner {e : ExprCode} (h : e.Spelled s) (around : Operation) :
    Spell s (Token.owner s e.operation? around (e.tokens s))
      (s.owner e.operation? around (e.doc s)) e.visits := Spell.owner h _ _

variable (s)

theorem ensures_spelledAll {es : List (Expr VariableId κ)}
    (h : ∀ e ∈ es, Ensures (e.resolve c) (Expr.Spelled s)) :
    Ensures (Expr.resolveAll c es) (Expr.AllSpelled s) := by
  induction es with
  | nil => exact .pure .nil
  | cons e es ih =>
    refine (h e List.mem_cons_self).bind fun code hcode => ?_
    refine (ih fun x hx => h x (List.mem_cons_of_mem e hx)).map fun codes hcodes => ?_
    exact .cons hcode hcodes

theorem ensures_spelled (e : Expr VariableId κ) : Ensures (e.resolve c) (Expr.Spelled s) := by
  induction e using Expr.induct with
  | const value => exact .pure (spell_plain _)
  | staticField qualifier name => exact .pure (spell_plain _)
  | var id =>
    refine (Ensures.trivial _).map fun v _ => ⟨?_, rfl⟩
    simp [Expr.tokens, Expr.doc, Token.leaves]
  | unary op e ih => exact ih.map fun code h => Spell.unary _ _ h
  | field e name ih =>
    exact ih.map fun code h => ((h.owner _).before _).layout (by simp [Expr.doc])
  | length e ih => exact ih.map fun code h => (h.owner _).before _
  | cast type e ih => exact ih.map fun code h => Spell.cast _ _ h
  | instanceOf e type inverted ih => exact ih.map fun code h => Spell.instanceOf _ _ _ h
  | stepBefore step e ih => exact ih.map fun code h => (h.owner _).after _
  | stepAfter step e ih => exact ih.map fun code h => (h.owner _).before _
  | binary op l r ihl ihr => exact ihl.bind fun l hl => ihr.map fun r hr => Spell.binary _ _ _ hl hr
  | compound op l r ihl ihr =>
    rw [Expr.resolve]
    split
    · exact Ensures.throw.bind (P := fun _ => False) fun _ => False.elim
    · exact ihl.bind fun l hl => ihr.map fun r hr => Spell.compound _ _ _ hl hr
  | index l r ihl ihr =>
    refine ihl.bind fun l hl => ihr.map fun r hr => ?_
    unfold Expr.Spelled
    simp only [Expr.doc, Expr.tokens]
    refine Spell.append ?_ (hr.enclosed _ _)
    cases l with
    | createArray => exact hl.parens
    | _ => exact hl.owner _
  | ternary e l r ihe ihl ihr =>
    exact ihe.bind fun e he => ihl.bind fun l hl => ihr.map fun r hr =>
      Spell.ternary he (hl.operand _ _) (hr.operand _ _)
  | call receiver checked function args ihr ihargs =>
    have hargs := ensures_spelledAll s ihargs
    rw [Expr.resolve]
    split
    · exact hargs.map fun codes h => (SpellAll.arguments h).after _
    · exact ihr.bind fun receiver hr => hargs.map fun codes h =>
        (((hr.owner _).before _).append h.arguments).layout (by simp [Expr.doc])
  | apply function args ih =>
    exact (ensures_spelledAll s ih).map fun codes h => h.arguments.after _
  | create cls args ih =>
    exact (ensures_spelledAll s ih).map fun codes h => h.arguments.after _
  | createArray element dimensions initializer ihd ihi =>
    cases initializer with
    | none => exact (ensures_spelledAll s ihd).map fun codes h => h.createArray element
    | some elements =>
      exact (ensures_spelledAll s (ihi elements rfl)).map fun codes h =>
        h.createArray_elements element
  | anonymous cls args ih =>
    have hmembers (codes : List ExprCode) (h : Expr.AllSpelled s codes)
        (hargs : (c.view cls).interface.isSome = true → Expr.allVisits codes = []) :
        Ensures (do
          let members ← outside (c.view cls).members
          return Expr.anonymous ⟨(c.view cls).interface, (c.view cls).superclass, members⟩ codes)
          (Expr.Spelled s) :=
      (Ensures.trivial _).map fun members _ => SpellAll.anonymous h hargs
    rw [Expr.resolve]
    split
    · exact hmembers [] .nil fun _ => rfl
    · next hinterface =>
      exact (ensures_spelledAll s ih).bind fun codes hcodes =>
        hmembers codes hcodes fun h => absurd h hinterface

theorem ensures_spelled_stmt (stmt : Stmt VariableId κ) :
    Ensures (stmt.resolve c) (StmtCode.Spelled s) := by
  have hexpr (e : Expr VariableId κ) := ensures_spelled (c := c) s e
  cases stmt with
  | eval e =>
    have heval : Ensures (do return StmtCode.plain (.eval (← e.resolve c))) (StmtCode.Spelled s) :=
      (hexpr e).map fun code h => h
    cases e with
    | compound op target amount =>
      rw [Stmt.resolve]
      split
      · refine (hexpr target).bind fun target ht => (hexpr _).bind fun again hr =>
          (hexpr amount).map fun amount ha => ?_
        have htarget := (ht.operand (.compound op) true).before
          (text (" " ++ s.target.token .assign ++ " "))
        have hall := htarget.append (Spell.binary op again.operation? amount.operation? hr ha)
        rw [← List.append_assoc] at hall
        exact hall
      · exact heval
    | _ => exact heval
  | assign target value =>
    refine (hexpr target).bind fun target ht => (hexpr value).map fun value hv => ?_
    exact ((ht.before _).append (hv.operand .assign true).continued).layout
      (by simp [StmtCode.bodyDoc])
  | ret value explicit =>
    cases value with
    | none =>
      cases explicit with
      | true => exact .pure (spell_plain _)
      | false => exact .pure ⟨rfl, rfl⟩
    | some e =>
      refine (hexpr e).map fun code h => ?_
      cases explicit with
      | true => exact h.after _
      | false => exact h
  | throw e =>
    exact (hexpr e).map fun code h => (h.continued.after _).layout (by simp [StmtCode.bodyDoc])

end Resolve

def Part.Each (E : ExprCode → Prop) (S : StmtCode → Prop) : Part → Prop
  | expression e => E e
  | item (.statement stmt) | clause stmt => S stmt
  | _ => True

/-- A property of all expressions and statements that parts write. -/
def EachPart (E : ExprCode → Prop) (S : StmtCode → Prop) (ps : List Part) : Prop :=
  ∀ p ∈ ps, p.Each E S

section Parts

open Unparse.Part (newline keyword label expression binding caseLabel item clause)

variable {E : ExprCode → Prop} {S : StmtCode → Prop} {p : Part} {ps qs : List Part}
  {statements : List StmtCode} {stmt : Option StmtCode} {e : ExprCode}

@[simp] theorem eachPart_nil : EachPart E S [] := nofun

@[simp] theorem eachPart_cons : EachPart E S (p :: ps) ↔ p.Each E S ∧ EachPart E S ps :=
  List.forall_mem_cons

@[simp] theorem eachPart_append : EachPart E S (ps ++ qs) ↔ EachPart E S ps ∧ EachPart E S qs :=
  List.forall_mem_append

theorem eachPart_flatMap {α : Type} {as : List α} {f : α → List Part} :
    EachPart E S (as.flatMap f) ↔ ∀ a ∈ as, EachPart E S (f a) := by
  simp only [EachPart, List.mem_flatMap]
  constructor
  · intro h a ha p hp
    exact h p ⟨a, ha, hp⟩
  · rintro h p ⟨a, ha, hp⟩
    exact h a ha p hp

@[simp] theorem eachPart_bracedParts : EachPart E S (bracedParts ps) ↔ EachPart E S ps := by
  simp [bracedParts, Part.Each]

@[simp] theorem eachPart_headParts (word : String) : EachPart E S (headParts word e) ↔ E e := by
  simp [headParts, Part.Each]

@[simp] theorem eachPart_labelParts (p : Place) : EachPart E S p.labelParts := by
  cases h : p.label <;> simp [Place.labelParts, h, Part.Each]

@[simp] theorem eachPart_leadParts (form : FormCode) : EachPart E S (leadParts form) := by
  unfold leadParts
  split <;> simp [Part.Each]

@[simp] theorem eachPart_exitParts (p : Place) : EachPart E S p.exitParts := by
  rw [Place.exitParts, Place.exits, eachPart_flatMap]
  intro i hi
  rcases List.mem_append.mp hi with hi | hi
  all_goals
    obtain ⟨j, -, rfl⟩ := List.mem_map.mp hi
    simp [Part.Each]

theorem eachPart_spokenItems {f : Item StmtCode → List Part}
    (hf : ∀ stmt, S stmt → EachPart E S (f (.statement stmt))) (h : ∀ x ∈ statements, S x) :
    EachPart E S ((spokenItems StmtCode.isSilent statements).flatMap f) := by
  rw [eachPart_flatMap]
  intro i hi
  obtain ⟨x, hx, rfl⟩ := List.mem_map.mp hi
  exact hf x (h x (List.mem_of_mem_filter hx))

theorem eachPart_lineParts (h : ∀ x ∈ statements, S x) : EachPart E S (lineParts statements) :=
  eachPart_spokenItems (fun x hx => by simpa [Part.Each] using hx) h

theorem eachPart_clauseParts (h : ∀ x ∈ stmt, S x) : EachPart E S (clauseParts stmt) := by
  intro p hp
  obtain ⟨x, hx, rfl⟩ := List.mem_map.mp hp
  exact h x (Option.mem_toList.mp (List.mem_of_mem_filter hx))

@[simp] theorem eachPart_loopVariableParts (vs : List Occurrence) :
    EachPart E S (loopVariableParts vs) := by
  rcases vs with _ | ⟨v, _ | ⟨w, vs⟩⟩
  · simp [loopVariableParts, Part.Each]
  · simp [loopVariableParts, Part.Each]
  · simp [loopVariableParts, Part.Each, eachPart_flatMap]

@[simp] theorem eachPart_caseLabels (keys : List (Option Literal)) :
    EachPart E S (keys.flatMap fun key => [newline, caseLabel key]) := by
  simp [eachPart_flatMap, Part.Each]

variable (s : Style)

/-- A property of all expressions and statements that a chain writes. -/
abbrev EachOf (E : ExprCode → Prop) (S : StmtCode → Prop) (code : Code) : Prop :=
  EachPart E S (codeParts s code)

theorem eachPart_handlersParts {handlers : List (Occurrence × Code)}
    (h : ∀ handler ∈ handlers, EachOf s E S handler.2) :
    EachPart E S (handlersParts s handlers) := by
  induction handlers with
  | nil => simp [handlersParts]
  | cons handler handlers ih =>
    rw [List.forall_mem_cons] at h
    simp [handlersParts, Part.Each, h.1, ih h.2]

theorem eachPart_casesParts {cases : List (List (Option Literal) × Code)}
    (h : ∀ case ∈ cases, EachOf s E S case.2) : EachPart E S (casesParts s cases) := by
  induction cases with
  | nil => simp [casesParts]
  | cons case cases ih =>
    rw [List.forall_mem_cons] at h
    simp [casesParts, h.1, ih h.2]

theorem eachPart_armsParts {arms : List (ExprCode × Code)}
    (h : ∀ arm ∈ arms, E arm.1 ∧ EachOf s E S arm.2) : EachPart E S (armsParts s arms) := by
  induction arms with
  | nil => simp [armsParts]
  | cons arm arms ih =>
    rw [List.forall_mem_cons] at h
    simp [armsParts, Part.Each, h.1, ih h.2]

theorem eachPart_elseParts {code : Option Code} (h : ∀ code' ∈ code, EachOf s E S code') :
    EachPart E S (elseParts s code) := by
  rcases code with _ | ⟨_ | ⟨e, _ | ⟨f, es⟩⟩⟩
  · simp [elseParts]
  · simp [elseParts, Part.Each]
  · simpa [elseParts, Part.Each, EachOf, codeParts] using h
  · have hcode := h _ rfl
    simp only [EachOf, codeParts, eachPart_append, eachPart_leadParts, true_and] at hcode
    rw [elseParts]
    split
    · simpa [Part.Each] using hcode.2
    · simpa [Part.Each] using hcode

theorem Form.Each.parts {form : FormCode} (h : form.Each E S (EachOf s E S)) (place : Place) :
    EachPart E S (formParts s place form) := by
  cases form with
  | block statements => exact eachPart_lineParts h
  | conditional condition whenTrue whenFalse =>
    obtain ⟨he, ht, hf⟩ := h
    simp [formParts, he, ht, eachPart_elseParts s hf]
  | whileLoop condition body =>
    obtain ⟨he, hb⟩ := h
    simp [formParts, he, hb]
  | doLoop condition body =>
    obtain ⟨he, hb⟩ := h
    simp [formParts, Part.Each, he, hb]
  | countedLoop init condition update body =>
    obtain ⟨hi, he, hu, hb⟩ := h
    have hupdate : EachPart E S (lineParts update.toList) := eachPart_lineParts (by simpa using hu)
    have hinit : EachPart E S ((spokenItems StmtCode.isSilent init.toList).flatMap
        fun i => [item i, newline]) :=
      eachPart_spokenItems (fun x hx => by simpa [Part.Each] using hx) (by simpa using hi)
    rw [formParts]
    split
    · cases update <;>
        simp [countedParts, Part.Each, eachPart_clauseParts hi, eachPart_clauseParts hu, he, hb]
    · simp [hinit, hupdate, he, hb]
  | forEach vars container body =>
    obtain ⟨he, hb⟩ := h
    simp [formParts, Part.Each, he, hb]
  | guarded body handlers cleanup =>
    obtain ⟨hb, hh, hc⟩ := h
    cases cleanup with
    | none => simp [formParts, Part.Each, hb, eachPart_handlersParts s hh, cleanupParts]
    | some code =>
      simp [formParts, Part.Each, hb, eachPart_handlersParts s hh, cleanupParts, hc code rfl]
  | switch selector cases =>
    obtain ⟨he, hc⟩ := h
    simp [formParts, Part.Each, he, eachPart_casesParts s hc]
  | select selector arms fallback =>
    obtain ⟨he, ha, hf⟩ := h
    cases fallback with
    | none => simp [formParts, Part.Each, he, eachPart_armsParts s ha, fallbackParts]
    | some code =>
      simp [formParts, Part.Each, he, eachPart_armsParts s ha, fallbackParts, hf code rfl]

theorem eachOf_cons {form : FormCode} {place : Place} {es : Code}
    (h : EachPart E S (formParts s place form)) (hes : EachOf s E S es) :
    EachOf s E S (.mk form place :: es) := by
  simp only [EachOf, codeParts, Element.parts, eachPart_append]
  refine ⟨⟨eachPart_leadParts _, ⟨?_, h⟩, eachPart_exitParts _⟩, hes⟩
  split
  · exact eachPart_nil
  · exact eachPart_labelParts _

theorem ensures_eachOf (hexpr : ∀ e : Expr VariableId κ, Ensures (e.resolve c) E)
    (hstmt : ∀ stmt : Stmt VariableId κ, Ensures (stmt.resolve c) S) (n : Nat)
    (head : Option ConstructionId) : Ensures (c.unfoldWithin n head) (EachOf s E S) := by
  induction n generalizing head with
  | zero =>
    cases head with
    | none => exact .pure eachPart_nil
    | some id => exact (Ensures.trivial _).bind fun _ _ => .throw
  | succ n ih =>
    cases head with
    | none => exact .pure eachPart_nil
    | some id =>
      refine (Ensures.trivial _).bind fun construction _ => (Ensures.trivial _).bind fun _ _ => ?_
      have hwalk (id : ConstructionId) := ih (some id)
      have helse (id : ConstructionId) :
          Ensures (c.elseBranch (fun branch => c.unfoldWithin n (some branch)) id)
            (EachOf s E S) := by
        refine (Ensures.trivial _).bind fun follower _ => ?_
        cases follower with
        | none => exact hwalk id
        | some next =>
          refine (Ensures.trivial _).bind fun carrier _ => (hwalk next).map fun code hcode => ?_
          exact eachOf_cons s (eachPart_lineParts (by simp)) hcode
      have hform := ensures_unfoldForm (V := fun _ _ => True) (fun _ => .trivial _)
        (fun skip => hexpr skip.negate) hexpr hstmt hwalk helse construction.form
      refine hform.bind fun form hform => (ih construction.next).map fun rest hrest => ?_
      exact eachOf_cons s (hform.each.parts s _) hrest

end Parts

section Tokens

variable {s}

theorem Part.Each.spell {p : Part} (h : p.Each (Expr.Spelled s) (StmtCode.Spelled s)) :
    Spell s (p.tokens s) (p.doc s) p.visits := by
  cases p with
  | expression code => exact h
  | clause stmt => exact h
  | binding site v =>
    refine ⟨?_, rfl⟩
    simp [tokens, doc, Token.leaves]
  | item i =>
    cases i with
    | statement stmt => exact Spell.before h _
    | breaks j => exact spell_plain _
    | continues j => exact spell_plain _
  | newline => exact spell_plain _
  | keyword word => exact spell_plain _
  | label name => exact spell_plain _
  | caseLabel key => exact spell_plain _

/-- The tokens of an unfolded chain write its document, and its variables are
those of its parts. -/
theorem spell_codeTokens {head : Option ConstructionId} {code : Code} {sc sc' : Scope}
    (h : (c.unfold head).run.run sc = (.ok code, sc')) (sameLine : Bool) :
    Spell s (Code.tokens s sameLine code) (Code.doc s sameLine code)
      (visitsOf (Code.parts s sameLine code)) := by
  have heach : EachOf s (Expr.Spelled s) (StmtCode.Spelled s) code :=
    (ensures_eachOf s (ensures_spelled s) (ensures_spelled_stmt s) _ head).result h
  have hparts : EachPart (Expr.Spelled s) (StmtCode.Spelled s) (Code.parts s sameLine code) := by
    cases code with
    | nil => exact eachPart_nil
    | cons e es =>
      cases sameLine with
      | false => exact heach
      | true =>
        simp only [EachOf, codeParts, eachPart_append] at heach
        simpa [Code.parts] using ⟨heach.1.2, heach.2⟩
  have hspell (p : Part) (hp : p ∈ Code.parts s sameLine code) := (hparts p hp).spell
  constructor
  · rw [← Code.leavesOf_parts, Code.tokens, Token.allLeaves_flatMap, leavesOf]
    exact List.flatMap_congr fun p hp => (hspell p hp).leaves
  · rw [Code.tokens, Token.visits_flatMap, visitsOf]
    exact List.flatMap_congr fun p hp => (hspell p hp).visits

end Tokens

end Unparse
