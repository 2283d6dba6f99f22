import Unparse.Proofs.Failure.Recorded
import Unparse.Proofs.Walk.Related

/-! # Recorded failures along a traversal

A traversal prints the members of the anonymous classes that it comes to. What
these tell of a recorded failure, the code of the traversal tells.
-/

namespace Unparse

open Layout (Doc)

variable {κ : Type}

section Expressions

variable {c : Context κ} {R : κ → Prop} {r : Recorded} (s : Style)

/-- Whether a class drops the arguments of its constructor. -/
def Context.drops (c : Context κ) (cls : κ) : Bool := (c.view cls).interface.isSome

theorem logs_use (c : Context κ) (id : VariableId) : Logs (c.use id) fun _ _ => True := by
  refine (Logs.lift (P := fun _ _ => True) fun _ _ => trivial).bind fun v _ _ => ?_
  have hreport (declares : Bool) : Logs (do
      if declares then Walking.report (.declared v.name)
      let occurrence : Occurrence := ⟨id, v.name, v.type, declares⟩
      Walking.record (.use occurrence)
      return occurrence) fun _ _ => True := by
    have hrecord : Logs (Walking.record (.use ⟨id, v.name, v.type, declares⟩))
        fun _ _ => True := logs_record _ trivial
    split
    · exact (logs_report (P := fun _ _ => True) _ trivial).bind fun _ _ _ =>
        hrecord.map fun _ _ _ => trivial
    · exact hrecord.map fun _ _ _ => trivial
  by_cases hk : v.kind = .localVar
  · simp only [hk, if_true]
    exact (logs_declare (P := fun _ _ => True) id fun _ => trivial).bind fun first _ _ =>
      hreport first
  · simp only [hk, if_false]
    exact hreport false

theorem logs_bind (c : Context κ) (id : VariableId) : Logs (c.bind id) fun _ _ => True := by
  refine (Logs.lift (P := fun _ _ => True) fun _ _ => trivial).bind fun v _ _ => ?_
  refine (logs_declare (P := fun _ _ => True) id fun _ => trivial).bind fun _ _ _ => ?_
  exact (logs_record (P := fun _ _ => True) _ trivial).map fun _ _ _ => trivial

theorem created_of_isThis {b : Body κ} {drops : κ → Bool} {e : Expr VariableId κ}
    (h : b.isThis e = true) : e.created drops = [] := by
  cases e with
  | var id => rfl
  | _ => cases h

theorem logs_resolveAll {es : List (Expr VariableId κ)}
    (h : ∀ e ∈ es, Logs (e.resolve c) fun code log =>
      Told r (Hits R (e.created c.drops)) (code.doc s).leaves log) :
    Logs (Expr.resolveAll c es) fun codes log =>
      Told r (Hits R (Expr.allCreated c.drops es)) ((Expr.docs s codes).flatMap Doc.leaves) log := by
  induction es with
  | nil => exact .pure (.of_not hits_nil)
  | cons e es ih =>
    refine (h e List.mem_cons_self).bind fun code log hcode => ?_
    refine (ih fun x hx => h x (List.mem_cons_of_mem e hx)).map fun codes log' hcodes => ?_
    exact (hcode.append hcodes).mono hits_append.mp (List.Subset.refl _)

theorem logs_resolve
    (hview : ∀ cls, Logs (c.view cls).members fun d log => Told r (R cls) d.leaves log)
    (e : Expr VariableId κ) :
    Logs (e.resolve c) fun code log =>
      Told r (Hits R (e.created c.drops)) (code.doc s).leaves log := by
  induction e using Expr.induct with
  | const value => exact .pure (.of_not hits_nil)
  | staticField qualifier name => exact .pure (.of_not hits_nil)
  | var id => exact (logs_use c id).map fun _ _ _ => .of_not hits_nil
  | unary op e ih =>
    exact ih.map fun code log hcode => hcode.mono id fun _ h => mem_unary s h _ _
  | field e name ih =>
    refine ih.map fun code log hcode => hcode.mono id fun leaf h => ?_
    simp [Expr.doc, mem_owner s h]
  | length e ih =>
    refine ih.map fun code log hcode => hcode.mono id fun leaf h => ?_
    simp [Expr.doc, mem_owner s h]
  | cast type e ih =>
    exact ih.map fun code log hcode => hcode.mono id fun _ h => mem_cast s h _ _
  | instanceOf e type inverted ih =>
    exact ih.map fun code log hcode => hcode.mono id fun _ h => mem_instanceOf s h _ _ _
  | stepBefore step e ih =>
    refine ih.map fun code log hcode => hcode.mono id fun leaf h => ?_
    simp [Expr.doc, mem_owner s h]
  | stepAfter step e ih =>
    refine ih.map fun code log hcode => hcode.mono id fun leaf h => ?_
    simp [Expr.doc, mem_owner s h]
  | binary op l r ihl ihr =>
    refine ihl.bind fun l log hl => ihr.map fun r log' hr => ?_
    exact (hl.append hr).mono hits_append.mp fun _ h => mem_binary s h _
  | compound op l r ihl ihr =>
    rw [Expr.resolve]
    split
    · exact .throw_bind (.unexpandableCompound op)
    · refine ihl.bind fun l log hl => ihr.map fun r log' hr => ?_
      exact (hl.append hr).mono hits_append.mp fun _ h => mem_compound s h _
  | index l r ihl ihr =>
    refine ihl.bind fun l log hl => ihr.map fun r log' hr => ?_
    exact (hl.append hr).mono hits_append.mp fun _ h => mem_index s h
  | ternary e l r ihe ihl ihr =>
    refine ihe.bind fun e log he => ihl.bind fun l log' hl => ihr.map fun r log'' hr => ?_
    refine (he.append (hl.append hr)).mono (by simp [Expr.created]) fun leaf h => ?_
    simp only [List.mem_append] at h
    rcases h with h | h | h
    · simp [Expr.doc, Style.ternary, h]
    · simp [Expr.doc, Style.ternary, mem_operand s h]
    · simp [Expr.doc, Style.ternary, mem_operand s h]
  | call receiver checked function args ihr ihargs =>
    have hargs := logs_resolveAll s ihargs
    rw [Expr.resolve]
    split
    · next h =>
      have hreceiver : receiver.created c.drops = [] := created_of_isThis h
      refine hargs.map fun codes log h => h.mono (by simp [Expr.created, hreceiver]) fun leaf hleaf => ?_
      simp [Expr.doc, mem_arguments s hleaf]
    · refine ihr.bind fun receiver log hr => hargs.map fun codes log' h => ?_
      refine (hr.append h).mono (by simp [Expr.created]) fun leaf hleaf => ?_
      rcases List.mem_append.mp hleaf with hleaf | hleaf
      · simp [Expr.doc, mem_owner s hleaf]
      · simp [Expr.doc, mem_arguments s hleaf]
  | apply function args ih =>
    refine (logs_resolveAll s ih).map fun codes log h => h.mono id fun leaf hleaf => ?_
    simp [Expr.doc, mem_arguments s hleaf]
  | create cls args ih =>
    refine (logs_resolveAll s ih).map fun codes log h => h.mono id fun leaf hleaf => ?_
    simp [Expr.doc, mem_arguments s hleaf]
  | createArray element dimensions initializer ihd ihi =>
    cases initializer with
    | none =>
      refine (logs_resolveAll s ihd).map fun codes log h => h.mono id fun leaf hleaf => ?_
      exact mem_createArray s hleaf element
    | some elements =>
      refine (logs_resolveAll s (ihi elements rfl)).map fun codes log h => h.mono id fun leaf hleaf => ?_
      exact mem_createArray_elements s hleaf element
  | anonymous cls args ih =>
    have hmembers (codes : List ExprCode) (log : List Event)
        (hcodes : Told r (Hits R (if c.drops cls then [] else Expr.allCreated c.drops args))
          (if c.drops cls then [] else (Expr.docs s codes).flatMap Doc.leaves) log) :
        Logs (do
          let members ← Walking.outside (c.view cls).members
          return Expr.anonymous ⟨(c.view cls).interface, (c.view cls).superclass, members⟩ codes)
          fun code log' => Told r (Hits R ((Expr.anonymous cls args).created c.drops))
            (code.doc s).leaves (log ++ log') := by
      refine (hview cls).outside.map fun members log' hmembers => ?_
      refine (hcodes.append hmembers).mono (by simp [Expr.created]) fun leaf hleaf => ?_
      simp only [Expr.doc, Style.anonymous]
      cases hinterface : (c.view cls).interface with
      | some interface => simp_all [Context.drops]
      | none =>
        simp only [Context.drops, hinterface] at hleaf
        rcases List.mem_append.mp hleaf with hleaf | hleaf
        · simp [mem_arguments s hleaf]
        · simp [hleaf]
    rw [Expr.resolve]
    split
    · next h =>
      exact hmembers [] [] (by simp [Told, Context.drops, h])
    · next h =>
      refine (logs_resolveAll s ih).bind fun codes log hcodes => hmembers codes log ?_
      simpa [Context.drops, h] using hcodes

end Expressions

section Chains

variable {c : Context κ} {R : κ → Prop} {r : Recorded} (s : Style)

theorem logs_stmt
    (hview : ∀ cls, Logs (c.view cls).members fun d log => Told r (R cls) d.leaves log)
    (stmt : Stmt VariableId κ) :
    Logs (stmt.resolve c) fun code log =>
      Told r (Hits R (stmt.created c.drops)) (code.bodyDoc s).leaves log := by
  have hexpr := logs_resolve s hview
  cases stmt with
  | eval e =>
    have heval : Logs (do return StmtCode.plain (.eval (← e.resolve c))) fun code log =>
        Told r (Hits R (e.created c.drops)) (code.bodyDoc s).leaves log :=
      (hexpr e).map fun _ _ h => h
    cases e with
    | compound op target amount =>
      rw [Stmt.resolve]
      split
      · refine (hexpr target).bind fun target log ht => ?_
        refine (hexpr _).bind fun again log' hr => (hexpr amount).map fun amount log'' ha => ?_
        refine (ht.append (hr.append ha)).mono ?_ fun leaf hleaf => ?_
        · intro h
          rcases hits_append.mp h with h | h
          · exact .inl h
          · exact .inr (.inr h)
        · rcases List.mem_append.mp hleaf with hleaf | hleaf
          · simp [StmtCode.bodyDoc, mem_operand s hleaf]
          · have hbinary : leaf ∈ (s.binary op (again.operandDoc s) (amount.operandDoc s)).leaves :=
              mem_binary s hleaf op
            simp [StmtCode.bodyDoc, hbinary]
      · exact heval
    | _ => exact heval
  | assign target value =>
    refine (hexpr target).bind fun target log ht => (hexpr value).map fun value log' hv => ?_
    refine (ht.append hv).mono hits_append.mp fun leaf hleaf => ?_
    rcases List.mem_append.mp hleaf with hleaf | hleaf
    · simp [StmtCode.bodyDoc, hleaf]
    · simp [StmtCode.bodyDoc, mem_continued s (mem_operand s hleaf _ _ _)]
  | ret value explicit =>
    cases value with
    | none => exact .pure (.of_not hits_nil)
    | some e =>
      refine (hexpr e).map fun code log h => h.mono id fun leaf hleaf => ?_
      cases explicit <;> simp [StmtCode.bodyDoc, hleaf]
  | throw e =>
    refine (hexpr e).map fun code log h => h.mono id fun leaf hleaf => ?_
    simp [StmtCode.bodyDoc, mem_continued s hleaf]

/-- Some class that is created in the part of a body reachable from a head is
told of. -/
def Context.Creates (c : Context κ) (R : κ → Prop) (head : Option ConstructionId) : Prop :=
  ∃ id construction, Reaches c.body head id ∧ c.body.constructions.get? id = some construction ∧
    Hits R (construction.form.created c.drops)

theorem Reaches.next {b : Body κ} {id x : ConstructionId} (h : Reaches b (some id) x) :
    x = id ∨ ∃ target ∈ b.links id, Reaches b (some target) x := by
  induction h with
  | head h => exact .inl (Option.some.inj h).symm
  | @link y target _ ht ih =>
    rcases ih with rfl | ⟨z, hz, hy⟩
    · exact .inr ⟨target, ht, .head rfl⟩
    · exact .inr ⟨z, hz, .link hy ht⟩

theorem Context.Creates.next {id : ConstructionId} {construction : Construction κ}
    (hget : c.body.constructions.get? id = some construction) (h : c.Creates R (some id)) :
    Hits R (construction.form.created c.drops) ∨
      Hits (fun branch => c.Creates R (some branch)) construction.form.branches ∨
        c.Creates R construction.next := by
  obtain ⟨x, found, hreaches, hfound, hcreated⟩ := h
  rcases hreaches.next with rfl | ⟨target, htarget, hx⟩
  · obtain rfl := Option.some.inj (hget.symm.trans hfound)
    exact .inl hcreated
  · have hrest : c.Creates R (some target) := ⟨x, found, hx, hfound, hcreated⟩
    rw [Body.links_of_get? hget, Construction.links, List.mem_append] at htarget
    rcases htarget with htarget | htarget
    · exact .inr (.inl ⟨target, htarget, hrest⟩)
    · rw [Option.mem_toList] at htarget
      exact .inr (.inr (htarget ▸ hrest))

theorem not_creates_none : ¬ c.Creates R none := by
  rintro ⟨id, construction, hreaches, -, -⟩
  have hnone {x : ConstructionId} (h : Reaches c.body none x) : False := by
    induction h with
    | head h => cases h
    | link _ _ ih => exact ih
  exact hnone hreaches

variable {B : ConstructionId → Prop} {walk : ConstructionId → Walking Code}

theorem logs_unfoldForm
    (hview : ∀ cls, Logs (c.view cls).members fun d log => Told r (R cls) d.leaves log)
    (hwalk : ∀ id, Logs (walk id) fun code log => Told r (B id) (codeDoc s code).leaves log)
    (helse : ∀ id, Logs (c.elseBranch walk id) fun code log =>
      Told r (B id) (elseDoc s (some code)).leaves log)
    (form : Form VariableId (Expr VariableId κ) (Stmt VariableId κ) ConstructionId) :
    Logs (c.unfoldForm walk form) fun code log => ∀ place,
      Told r (Hits R (form.created c.drops) ∨ Hits B form.branches)
        (formDoc s place code).leaves log := by
  have hexpr := logs_resolve s hview
  have hguard (skip : Expr VariableId κ) : Logs (c.guard skip) fun code log =>
      Told r (Hits R (skip.created c.drops)) (code.doc s).leaves log := by
    have hnegate := hexpr skip.negate
    rwa [Expr.created_negate] at hnegate
  have hstmts (statements : List (Stmt VariableId κ)) :
      Logs (statements.mapM (Stmt.resolve c)) fun code log =>
        Told r (Hits R (statements.flatMap (Stmt.created c.drops)))
          (code.flatMap fun stmt => (stmt.bodyDoc s).leaves) log := by
    simp only [hits_flatMap]
    exact logs_mapM fun stmt _ => logs_stmt s hview stmt
  have hstmt (stmt : Option (Stmt VariableId κ)) :
      Logs (stmt.mapM (Stmt.resolve c)) fun code log =>
        Told r (Hits R (stmt.toList.flatMap (Stmt.created c.drops)))
          (code.toList.flatMap fun stmt => (stmt.bodyDoc s).leaves) log := by
    simp only [hits_flatMap]
    exact logs_optional fun stmt _ => logs_stmt s hview stmt
  have hoption (branch : Option ConstructionId) : Logs (branch.mapM walk) fun code log =>
      Told r (Hits B branch.toList) (code.toList.flatMap fun code => (codeDoc s code).leaves) log :=
    logs_optional fun id _ => hwalk id
  have hbind (id : VariableId) : Logs (c.bind id) fun _ log => Told r False [] log :=
    (logs_bind c id).mono fun _ _ _ => .of_not not_false
  cases form with
  | block statements =>
    refine (hstmts statements).map fun code log h place => ?_
    exact h.mono (by simp [Form.created, Form.branches]) fun _ => mem_blockDoc s
  | conditional skip whenTrue whenFalse =>
    refine (hguard skip).bind fun condition log hc => (hwalk whenTrue).bind fun code log' ht => ?_
    have hfalse : Logs (whenFalse.mapM (c.elseBranch walk)) fun code log =>
        Told r (Hits B whenFalse.toList) (elseDoc s code).leaves log := by
      cases whenFalse with
      | none => exact .pure (.of_not hits_nil)
      | some id =>
        refine (helse id).map (g := some) fun code log h => h.mono ?_ (List.Subset.refl _)
        simp
    refine hfalse.map fun other log'' hf place => ?_
    refine (hc.append (ht.append hf)).mono (by simp [Form.created, Form.branches]) fun leaf hleaf => ?_
    simp only [List.mem_append] at hleaf
    rcases hleaf with hleaf | hleaf | hleaf
    · simp [formDoc, hleaf]
    · simp [formDoc, mem_braced s hleaf]
    · simp [formDoc, hleaf]
  | whileLoop skip body =>
    refine (hguard skip).bind fun condition log hc => (hwalk body).map fun code log' hb place => ?_
    refine (hc.append hb).mono (by simp [Form.created, Form.branches]) fun leaf hleaf => ?_
    rcases List.mem_append.mp hleaf with hleaf | hleaf
    · simp [formDoc, hleaf]
    · simp [formDoc, mem_braced s hleaf]
  | doLoop condition body =>
    refine (hwalk body).bind fun code log hb => (hexpr condition).map fun e log' hc place => ?_
    refine (hb.append hc).mono (by simp [Form.created, Form.branches, or_comm]) fun leaf hleaf => ?_
    rcases List.mem_append.mp hleaf with hleaf | hleaf
    · simp [formDoc, mem_braced s hleaf]
    · simp [formDoc, hleaf]
  | countedLoop init skip update body =>
    rw [Context.unfoldForm]
    refine (hstmt init).bind fun init l₁ hi => ?_
    split
    · refine (hguard skip).bind fun condition l₂ hc => (hstmt update).bind fun update l₃ hu => ?_
      refine (hwalk body).map fun code l₄ hb place => ?_
      refine (hi.append (hc.append (hu.append hb))).mono ?_ fun _ => mem_countedLoop s place
      simp [Form.created, Form.branches, or_assoc]
    · refine (hwalk body).bind fun code l₂ hb => (hstmt update).bind fun update l₃ hu => ?_
      refine (hguard skip).map fun condition l₄ hc place => ?_
      refine (hi.append (hb.append (hu.append hc))).mono ?_ fun leaf hleaf => ?_
      · simp only [Form.created, Form.branches, hits_append, hits_cons, hits_nil]
        tauto
      · refine mem_countedLoop s place ?_
        simp only [List.mem_append] at hleaf ⊢
        tauto
  | forEach vars container body =>
    have hvars : Logs (c.loopVariables vars) fun _ log => Told r False [] log := by
      unfold Context.loopVariables
      split
      · have hall : Logs (vars.mapM c.bind) fun vs log =>
            Told r (Hits (fun _ => False) vars) (vs.flatMap fun _ => []) log :=
          logs_mapM fun id _ => hbind id
        exact hall.mono fun _ _ _ => .of_not not_false
      · exact .throw _
    refine hvars.bind fun vars l₁ hv => (hexpr container).bind fun e l₂ hc => ?_
    refine (hwalk body).map fun code l₃ hb place => ?_
    refine (hv.append (hc.append hb)).mono (by simp [Form.created, Form.branches])
      fun leaf hleaf => ?_
    simp only [List.nil_append, List.mem_append] at hleaf
    rcases hleaf with hleaf | hleaf
    · simp [formDoc, hleaf]
    · simp [formDoc, mem_braced s hleaf]
  | guarded body handlers cleanup =>
    have hhandlers : Logs
        (handlers.mapM fun h => do return (← c.bind h.1, ← walk h.2)) fun code log =>
          Told r (Hits B (handlers.map Prod.snd))
            (code.flatMap fun h => (codeDoc s h.2).leaves) log := by
      simp only [hits_map]
      refine logs_mapM fun handler _ => ?_
      exact (hbind handler.1).bind fun v l₁ hv => (hwalk handler.2).map fun code l₂ h =>
        (hv.append h).mono .inr (List.Subset.refl _)
    refine (hwalk body).bind fun code l₁ hb => hhandlers.bind fun codes l₂ hh => ?_
    refine (hoption cleanup).map fun last l₃ hc place => ?_
    refine (hb.append (hh.append hc)).mono (by simp [Form.created, Form.branches])
      fun leaf hleaf => ?_
    simp only [List.mem_append] at hleaf
    rcases hleaf with hleaf | hleaf | hleaf
    · simp [formDoc, mem_braced s hleaf]
    · simp [formDoc, mem_handlersDoc s hleaf]
    · cases last with
      | none => cases hleaf
      | some code =>
        simp only [Option.toList_some, List.flatMap_cons, List.flatMap_nil, List.append_nil] at hleaf
        simp [formDoc, cleanupDoc, mem_braced s hleaf]
  | switch selector cases =>
    have hcases : Logs (cases.mapM fun h => do return (h.1, ← walk h.2))
        fun code log => Told r (Hits B (cases.map Prod.snd))
          (code.flatMap fun c => (codeDoc s c.2).leaves) log := by
      simp only [hits_map]
      exact logs_mapM fun case _ => (hwalk case.2).map fun _ _ h => h
    refine hcases.bind fun codes l₁ hc => (hexpr selector).map fun e l₂ he place => ?_
    refine (hc.append he).mono (by simp [Form.created, Form.branches, or_comm]) fun leaf hleaf => ?_
    rcases List.mem_append.mp hleaf with hleaf | hleaf
    · simp [formDoc, mem_casesDoc s hleaf]
    · simp [formDoc, hleaf]
  | select selector arms fallback =>
    have harms : Logs
        (arms.mapM fun a => do return (← a.1.resolve c, ← walk a.2)) fun code log =>
          Told r (Hits (fun arm => Hits R (arm.1.created c.drops) ∨ B arm.2) arms)
            (code.flatMap fun a => (a.1.doc s).leaves ++ (codeDoc s a.2).leaves) log :=
      logs_mapM fun arm _ => (hexpr arm.1).bind fun e l₁ he =>
        (hwalk arm.2).map fun code l₂ h => he.append h
    refine harms.bind fun codes l₁ ha => (hoption fallback).bind fun last l₂ hf => ?_
    refine (hexpr selector).map fun e l₃ he place => ?_
    refine (ha.append (hf.append he)).mono ?_ fun leaf hleaf => ?_
    · simp only [Form.created, Form.branches, hits_append, hits_flatMap, hits_map, Hits.or]
      tauto
    · simp only [List.mem_append] at hleaf
      rcases hleaf with hleaf | hleaf | hleaf
      · simp [formDoc, mem_armsDoc s hleaf]
      · cases last with
        | none => cases hleaf
        | some code =>
          simp only [Option.toList_some, List.flatMap_cons, List.flatMap_nil,
            List.append_nil] at hleaf
          simp [formDoc, fallbackDoc, mem_braced s hleaf]
      · simp [formDoc, hleaf]

theorem logs_enter (b : Body κ) (id : ConstructionId) :
    Logs (b.enter id) fun construction _ => b.constructions.get? id = some construction := by
  refine (Logs.lift (P := fun construction _ => b.constructions.get? id = some construction)
    fun construction hpeek => ?_).bind fun construction _ hget => ?_
  · unfold Body.peek at hpeek
    split at hpeek
    · next hc =>
      cases hpeek
      exact hc
    · cases hpeek
  · refine (logs_visit (P := fun _ _ => True) id fun _ => trivial).bind fun first _ _ => ?_
    cases first
    · exact .throw _
    · exact (logs_record (P := fun _ _ => True) _ trivial).map fun _ _ _ => hget

theorem logs_elseBranch
    (hwalk : ∀ id, Logs (walk id) fun code log =>
      Told r (c.Creates R (some id)) (codeDoc s code).leaves log) (id : ConstructionId) :
    Logs (c.elseBranch walk id) fun code log =>
      Told r (c.Creates R (some id)) (elseDoc s (some code)).leaves log := by
  have hwords {H : Prop} {code : Code} {log : List Event}
      (h : Told r H (codeDoc s code).leaves log) : Told r H (elseDoc s (some code)).leaves log :=
    fun hH => ⟨word_mem_elseDoc s (h hH).1, (h hH).2⟩
  have hlift : Logs (liftM (c.elseIf? id) : Walking (Option ConstructionId)) fun follower log =>
      c.elseIf? id = .ok follower ∧ log = [] := .lift fun _ h => ⟨h, rfl⟩
  refine hlift.bind ?_
  rintro follower log ⟨helse, rfl⟩
  cases follower with
  | none => exact (hwalk id).mono fun code log h => hwords h
  | some next =>
    obtain ⟨carrier, hget, hempty, hnext⟩ := Context.carrier_of_elseIf? helse
    refine (logs_enter c.body id).bind fun entered l₁ hentered => ?_
    obtain rfl : carrier = entered := Option.some.inj (hget.symm.trans hentered)
    refine (hwalk next).map fun code l₂ h => hwords ?_
    intro hcreates
    have hrest : c.Creates R (some next) := by
      have hcases := hcreates.next hget
      rw [carrier.form_of_isEmptyBlock hempty, hnext] at hcases
      simpa [Form.created, Form.branches] using hcases
    obtain ⟨hword, hevent⟩ := h hrest
    exact ⟨by simp [codeDoc, hword], by simp [hevent]⟩

theorem logs_unfoldWithin
    (hview : ∀ cls, Logs (c.view cls).members fun d log => Told r (R cls) d.leaves log)
    (n : Nat) (head : Option ConstructionId) :
    Logs (c.unfoldWithin n head) fun code log =>
      Told r (c.Creates R head) (codeDoc s code).leaves log := by
  induction n generalizing head with
  | zero =>
    cases head with
    | none => exact .pure (.of_not not_creates_none)
    | some id => exact (logs_enter c.body id).bind fun _ _ _ => .throw _
  | succ n ih =>
    cases head with
    | none => exact .pure (.of_not not_creates_none)
    | some id =>
      refine (logs_enter c.body id).bind fun construction l₁ hget => ?_
      refine (logs_report (P := fun _ _ => True) _ trivial).bind fun _ l₂ _ => ?_
      have hform := logs_unfoldForm s hview (fun id => ih (some id))
        (logs_elseBranch s fun id => ih (some id)) construction.form
      refine hform.bind fun form l₃ hform => (ih construction.next).map fun rest l₄ hrest => ?_
      refine Told.later (Told.later ?_)
      refine ((hform construction.place).append hrest).mono ?_ fun leaf hleaf => ?_
      · intro hcreates
        have hcases := hcreates.next hget
        rwa [← or_assoc] at hcases
      · simp only [codeDoc, Element.doc, Doc.leaves_append, List.mem_append] at hleaf ⊢
        tauto

end Chains

end Unparse
