import Unparse.Proofs.Names.Hoisted
import Unparse.Proofs.Portable.Classes

/-! # Clashes of names

Two declarations of one name in one block clash. A language without headers of counted
loops declares their variables around the loops and inside of them. If no names clash in
the text with headers, then in the text without them at least one of two clashing names
is that of a variable from the header of a counted loop.
-/

namespace Unparse

open Unparse.Part (newline keyword expression binding owned)
open Visit (declared?)

/-- What is declared in the headers of counted loops is in a set. -/
def Within (H : VariableId → Prop) (code : Code) : Prop := ∀ id, Hoisted code id → H id

section Forms

variable {κ : Type} (b : Body κ) (H : VariableId → Prop) [DecidablePred H] (s s' : Style)

/-- Chains that declare the same in each block, whether or not they are `else` branches. -/
structure Twins (code code' : Code) : Prop where
  chain : Simulates b H (codeVisits s.target code) (codeVisits s'.target code')
    (codeParts s code) (codeParts s' code')
  branch : Simulates b H (codeVisits s.target code) (codeVisits s'.target code')
    (elseParts s (some code)) (elseParts s' (some code'))
  head : (code.head?.map fun e => e.form.isConditional) =
    code'.head?.map fun e => e.form.isConditional

abbrev TwinsWithin (code code' : Code) : Prop := Within H code → Twins b H s s' code code'

variable {b H s s'} {f f' : FormCode} {es es' : Code} {p : Place}

omit [DecidablePred H] in
theorem Within.of_cons (h : Within H (.mk f p :: es)) :
    (∀ v ∈ f.headerVisits.filterMap declared?, H v.id) ∧ (∀ code ∈ f.branches, Within H code) ∧
      Within H es :=
  ⟨fun v hv => h v.id ⟨_, .here es, v, hv, rfl⟩,
    fun _ hcode id ⟨e, he, hv⟩ => h id ⟨e, .branch hcode he, hv⟩,
    fun id ⟨e, he, hv⟩ => h id ⟨e, .next _ he, hv⟩⟩

theorem keeps_statements {statements statements' : List StmtCode}
    (h : List.Forall₂ (fun stmt stmt' => Restates stmt.visits stmt'.visits) statements
      statements') :
    Keeps b H (statements.flatMap StmtCode.visits) (statements'.flatMap StmtCode.visits) := by
  induction h with
  | nil => exact .nil
  | cons h _ ih => exact (keeps_restates h).append ih

theorem restates_clause {stmt stmt' : Option StmtCode}
    (h : Option.Rel (fun stmt stmt' => Restates stmt.visits stmt'.visits) stmt stmt') :
    Restates (stmt.toList.flatMap StmtCode.visits) (stmt'.toList.flatMap StmtCode.visits) := by
  cases h with
  | none => exact .same .nil
  | some h => simpa using h

theorem simulates_head {e e' : ExprCode} (h : Expr.SameUses e e') {word : String}
    (hword : (keyword word).bracket? = none) (hcatch : word ≠ " catch ") :
    Simulates b H e.visits e'.visits (headParts word e) (headParts word e') := by
  have hflat (e : ExprCode) : Flat ((headParts word e).map owned) e.visits :=
    (flat_headParts word hword e).owned (by simp [headParts, hcatch.symm])
  exact .flat (keeps_uses h) (hflat e) (hflat e')

theorem simulates_cleanup {c c' : Option Code} (h : Option.Rel (TwinsWithin b H s s') c c')
    (hwithin : ∀ code ∈ c, Within H code) :
    Simulates b H (branchVisits s.target c) (branchVisits s'.target c') (cleanupParts s c)
      (cleanupParts s' c') := by
  cases h with
  | none => exact .nil
  | some h => exact (h (hwithin _ rfl)).chain.braced.word _ (by simp [Part.bracket?]) (by simp)

theorem simulates_fallback {c c' : Option Code} (h : Option.Rel (TwinsWithin b H s s') c c')
    (hwithin : ∀ code ∈ c, Within H code) :
    Simulates b H (branchVisits s.target c) (branchVisits s'.target c') (fallbackParts s c)
      (fallbackParts s' c') := by
  cases h with
  | none => exact Simulates.nil.word _ (by simp [Part.bracket?]) (by simp)
  | some h => exact (h (hwithin _ rfl)).chain.braced

theorem simulates_handlers {hs hs' : List (Occurrence × Code)}
    (h : List.Forall₂ (fun h h' => h.1.id = h'.1.id ∧ TwinsWithin b H s s' h.2 h'.2) hs hs')
    (hwithin : ∀ h ∈ hs, Within H h.2) :
    Simulates b H (handlerVisits s.target hs) (handlerVisits s'.target hs') (handlersParts s hs)
      (handlersParts s' hs') := by
  have hflat (v : Occurrence) : Flat ([keyword "(", binding .handler v, keyword ")",
      keyword " "].map owned) [.bind v] :=
    ⟨by simp [Part.bracket?, owned], rfl⟩
  induction h with
  | nil => exact .nil
  | @cons h h' hs hs' hh _ ih =>
    obtain ⟨v, body⟩ := h
    obtain ⟨v', body'⟩ := h'
    obtain ⟨hbody, hwithin⟩ := List.forall_mem_cons.mp hwithin
    exact ((hh.2 hbody).chain.loop (keeps_bind hh.1) (.inr rfl) (hflat v) (hflat v')).append
      (ih hwithin)

theorem simulates_cases {cs cs' : List (List (Option Literal) × Code)}
    (h : List.Forall₂ (fun c c' => c.1 = c'.1 ∧ TwinsWithin b H s s' c.2 c'.2) cs cs')
    (hwithin : ∀ c ∈ cs, Within H c.2) :
    Simulates b H (caseVisits s.target cs) (caseVisits s'.target cs') (casesParts s cs)
      (casesParts s' cs') := by
  have hflat (keys : List (Option Literal)) :
      Flat ((keys.flatMap fun key => [newline, Part.caseLabel key]).map owned) [] :=
    (flat_caseLabels keys).owned (by simp)
  induction h with
  | nil => exact .nil
  | @cons c c' cs cs' hc _ ih =>
    obtain ⟨keys, body⟩ := c
    obtain ⟨keys', body'⟩ := c'
    obtain ⟨hbody, hwithin⟩ := List.forall_mem_cons.mp hwithin
    exact ((hc.2 hbody).chain.after (hflat keys) (hflat keys')).append (ih hwithin)

theorem lexicon_ne_catch (s : Style) : " catch " ≠ s.lexicon.terminator ∧
    " catch " ≠ " " ++ s.lexicon.forEachKeyword ++ " " ∧
    " catch " ≠ s.lexicon.selectKeyword ++ " " ∧ " catch " ≠ s.lexicon.armKeyword ∧
    " catch " ≠ s.lexicon.fallbackArm ++ " -> " := by
  cases h : s.target <;> simp [Style.lexicon, h, Target.lexicon]

theorem simulates_arms {as as' : List (ExprCode × Code)}
    (h : List.Forall₂ (fun a a' => Expr.SameUses a.1 a'.1 ∧ TwinsWithin b H s s' a.2 a'.2) as as')
    (hwithin : ∀ a ∈ as, Within H a.2) :
    Simulates b H (armVisits s.target as) (armVisits s'.target as') (armsParts s as)
      (armsParts s' as') := by
  have hflat (s : Style) (e : ExprCode) : Flat ([newline, keyword s.lexicon.armKeyword,
      expression e, keyword " -> "].map owned) e.visits :=
    (flat_armHead s e).owned (by simp [(lexicon_ne_catch s).2.2.2.1])
  induction h with
  | nil => exact .nil
  | @cons a a' as as' ha _ ih =>
    obtain ⟨guard, body⟩ := a
    obtain ⟨guard', body'⟩ := a'
    obtain ⟨hbody, hwithin⟩ := List.forall_mem_cons.mp hwithin
    have harm := (ha.2 hbody).chain.braced
    exact (Simulates.append (.flat (keeps_uses ha.1) (hflat s guard) (hflat s' guard'))
      harm).append (ih hwithin)

/-- A counted loop with a header, and as its initializer and a `while` loop. -/
theorem simulates_countedLoop (hs : s.lexicon.countedLoops = true)
    (hs' : s'.lexicon.countedLoops = false) {init init' update update' : Option StmtCode}
    {e e' : ExprCode} {body body' : Code}
    (hi : Option.Rel (fun stmt stmt' => Restates stmt.visits stmt'.visits) init init')
    (he : Expr.SameUses e e')
    (hu : Option.Rel (fun stmt stmt' => Restates stmt.visits stmt'.visits) update update')
    (hbody : Simulates b H (codeVisits s.target body) (codeVisits s'.target body')
      (codeParts s body) (codeParts s' body'))
    (hheader : ∀ v ∈ (Form.countedLoop init e update body : FormCode).headerVisits.filterMap
      declared?, H v.id) :
    Simulates b H (formVisits s.target (.countedLoop init e update body))
      (formVisits s'.target (.countedLoop init' e' update' body'))
      (formParts s p (.countedLoop init e update body))
      (formParts s' p (.countedLoop init' e' update' body')) := by
  obtain ⟨hps, hparts, hflat⟩ := flat_countedParts init e update
  have hcatch : keyword " catch " ∉ hps := by
    have hcounted : keyword " catch " ∉ countedParts init e update := by
      simp [countedParts, clauseParts]
    rw [hparts] at hcounted
    exact fun hmem => hcounted (List.mem_cons_of_mem _ hmem)
  have hinit : Flat ((((spokenItems StmtCode.isSilent init'.toList).flatMap fun i =>
      [Part.item i, newline]) ++ p.labelParts).map owned)
      (init'.toList.flatMap StmtCode.visits) := by
    have hflat := (flat_initParts init').append (flat_labelParts p)
    rw [List.append_nil] at hflat
    exact hflat.owned (by simp [Place.labelParts])
  have hhead : Flat ((headParts "while " e').map owned) e'.visits :=
    (flat_headParts _ (by simp [Part.bracket?]) e').owned (by simp [headParts])
  have hupdate : Flat ((lineParts update'.toList).map owned)
      (update'.toList.flatMap StmtCode.visits) :=
    (flat_lineParts update'.toList).owned (by simp [lineParts])
  have hcounted := Simulates.counted (restates_clause hi) (.same he) (restates_clause hu) hbody
    hheader (hflat.owned hcatch) hinit hhead hupdate
  rw [← hparts, ← List.append_assoc (_ ++ _)] at hcounted
  rw [formVisits, formVisits, formParts, formParts]
  change Simulates b H (_ ++ if s.lexicon.countedLoops then _ else _)
    (_ ++ if s'.lexicon.countedLoops then _ else _) _ _
  simpa only [hs, hs', if_true, if_false, Bool.false_eq_true] using hcounted

/-- Control structures of one kind declare the same in each block, except for what is
declared in the headers of counted loops. -/
theorem simulates_form (hs : s.lexicon.countedLoops = true) (hs' : s'.lexicon.countedLoops = false)
    (hf : Form.Rel (fun v v' => v.id = v'.id) Expr.SameUses
      (fun stmt stmt' => Restates stmt.visits stmt'.visits) (TwinsWithin b H s s') f f')
    (hheader : ∀ v ∈ f.headerVisits.filterMap declared?, H v.id)
    (hbranches : ∀ code ∈ f.branches, Within H code) :
    Simulates b H (formVisits s.target f) (formVisits s'.target f') (formParts s p f)
      (formParts s' p f') := by
  cases hf with
  | @block statements statements' h =>
    have hflat (statements : List StmtCode) :
        Flat ((lineParts statements).map owned) (statements.flatMap StmtCode.visits) :=
      (flat_lineParts statements).owned (by simp [lineParts])
    rw [formVisits, formVisits, formParts, formParts]
    exact .flat (keeps_statements h) (hflat statements) (hflat statements')
  | @conditional e e' whenTrue whenTrue' whenFalse whenFalse' he ht hf =>
    rw [formVisits, formVisits, formParts, formParts]
    have helse : Simulates b H (branchVisits s.target whenFalse) (branchVisits s'.target whenFalse')
        (elseParts s whenFalse) (elseParts s' whenFalse') := by
      cases hf with
      | none => exact .nil
      | some h => exact (h (hbranches _ (by simp [Form.branches]))).branch
    have hbody := (ht (hbranches _ (by simp [Form.branches]))).chain.braced
    exact ((simulates_head he (by simp [Part.bracket?]) (by simp)).append hbody).append helse
  | @whileLoop e e' body body' he hb =>
    rw [formVisits, formVisits, formParts, formParts]
    have hbody := (hb (hbranches _ (by simp [Form.branches]))).chain.braced
    exact (simulates_head he (by simp [Part.bracket?]) (by simp)).append hbody
  | @doLoop e e' body body' he hb =>
    have hflat (s : Style) (e : ExprCode) : Flat ([keyword " while ", keyword "(", expression e,
        keyword ")", keyword s.lexicon.terminator].map owned) e.visits :=
      (flat_doTail s e).owned (by simp [(lexicon_ne_catch s).1])
    have hbody := (hb (hbranches _ (by simp [Form.branches]))).chain.braced
    rw [formVisits, formVisits, formParts, formParts]
    exact (hbody.word "do " (by simp [Part.bracket?]) (by simp)).append
      (.flat (keeps_uses he) (hflat s e) (hflat s' e'))
  | @countedLoop init init' e e' update update' body body' hi he hu hb =>
    exact simulates_countedLoop hs hs' hi he hu (hb (hbranches _ (by simp [Form.branches]))).chain
      hheader
  | @forEach vars vars' e e' body body' hv he hb =>
    have hflat (s : Style) (vars : List Occurrence) (e : ExprCode) :
        Flat ((loopVariableParts vars ++ [keyword (" " ++ s.lexicon.forEachKeyword ++ " "),
          expression e, keyword ") "]).map owned) (vars.map Visit.bind ++ e.visits) := by
      refine (flat_forEachHead s vars e).owned ?_
      obtain ⟨-, hcatch, -⟩ := lexicon_ne_catch s
      rcases vars with _ | ⟨v, _ | ⟨w, vs⟩⟩ <;> simp [loopVariableParts, hcatch]
    have hbody := (hb (hbranches _ (by simp [Form.branches]))).chain
    rw [formVisits, formVisits, formParts, formParts]
    exact hbody.loop ((keeps_binds hv).append (keeps_uses he)) (.inl rfl) (hflat s vars e)
      (hflat s' vars' e')
  | @guarded body body' handlers handlers' cleanup cleanup' hb hh hc =>
    have hbody := (hb (hbranches _ (by simp [Form.branches]))).chain.braced
    have htry := hbody.word "try " (by simp [Part.bracket?]) (by simp)
    have hhandlers := simulates_handlers hh fun h hmem =>
      hbranches _ (by simpa [Form.branches] using .inr (.inl ⟨h.1, hmem⟩))
    have hcleanup := simulates_cleanup hc fun code hcode =>
      hbranches _ (by simpa [Form.branches] using .inr (.inr hcode))
    rw [formVisits, formVisits, formParts, formParts]
    exact (htry.append hhandlers).append hcleanup
  | @switch e e' cases cases' he hc =>
    have hflat (e : ExprCode) : Flat ([keyword "switch ", keyword "(", expression e,
        keyword ")"].map owned) e.visits :=
      (flat_selector (by simp [Part.bracket?]) e).owned (by simp)
    have hcases := (simulates_cases hc fun c hmem =>
      hbranches _ (by simpa [Form.branches] using ⟨c.1, hmem⟩)).braces " \x7b"
        (by simp [Part.bracket?]) (by simp)
    rw [formVisits, formVisits, formParts, formParts]
    exact hcases.swap (.flat (keeps_uses he) (hflat e) (hflat e'))
  | @select e e' arms arms' fallback fallback' he ha hf =>
    have hflat (s : Style) (e : ExprCode) : Flat ([keyword (s.lexicon.selectKeyword ++ " "),
        keyword "(", expression e, keyword ")"].map owned) e.visits :=
      (flat_selector (bracket?_lexicon s).2.2.1 e).owned (by simp [(lexicon_ne_catch s).2.2.1])
    have harrow (s : Style) : Flat ([newline, keyword (s.lexicon.fallbackArm ++ " -> ")].map owned)
        [] := (flat_fallbackHead s).owned (by simp [(lexicon_ne_catch s).2.2.2.2])
    have harms := simulates_arms ha fun a hmem =>
      hbranches _ (by simpa [Form.branches] using .inl ⟨a.1, hmem⟩)
    have hfallback := simulates_fallback hf fun code hcode =>
      hbranches _ (by simpa [Form.branches] using .inr hcode)
    have hinner := ((harms.before (harrow s) (harrow s')).append hfallback).braces " \x7b"
      (by simp [Part.bracket?]) (by simp)
    rw [formVisits, formVisits, formParts, formParts]
    simpa using hinner.swap (.flat (keeps_uses he) (hflat s e) (hflat s' e'))

theorem twins_nil : Twins b H s s' [] [] where
  chain := .nil
  branch := Simulates.nil.braced.word " else " (by simp [Part.bracket?]) (by simp)
  head := rfl

theorem simulates_element {vs vs' : List Visit}
    (h : Simulates b H vs vs' (formParts s p f) (formParts s' p f')) :
    Simulates b H vs vs' ((Element.mk f p).parts s) ((Element.mk f' p).parts s') := by
  have hlabel (s : Style) (f : FormCode) :
      Flat ((if s.writesAsWhile f then [] else p.labelParts).map owned) [] := by
    split
    · exact .nil
    · exact (flat_labelParts p).owned (by simp [Place.labelParts])
  have hexits : Flat (p.exitParts.map owned) [] :=
    (flat_exitParts p).owned (by simp [Place.exitParts])
  rw [Element.parts, Element.parts]
  exact (h.after (hlabel s f) (hlabel s' f')).before hexits hexits

theorem reads_of_newline {ps : List Part} {rs : List Region}
    (h : Reads ((newline :: ps).map owned) rs) : Reads (ps.map owned) rs := by
  intro inner outer
  simpa [owned, Reader.step, Part.bracket?, Part.visits] using h inner outer

theorem Simulates.of_newline {vs vs' : List Visit} {ps os : List Part}
    (h : Simulates b H vs vs' (newline :: ps) (newline :: os)) : Simulates b H vs vs' ps os := by
  intro before before' hvs hus hagree
  obtain ⟨hagree, rs, rs', hrs, hrs', halike⟩ := h before before' hvs hus hagree
  exact ⟨hagree, rs, rs', reads_of_newline hrs, reads_of_newline hrs', halike⟩

theorem chained_cons (e : Element) (es : Code) : Execution.chained (e :: es) =
    (e.isEmptyBlock && (es.head?.map fun f => f.form.isConditional).getD false) := by
  cases es <;> simp [Execution.chained]

theorem codeParts_of_conditional (s : Style)
    (h : (es.head?.map fun f => f.form.isConditional).getD false = true) :
    codeParts s es = newline :: (codeParts s es).tail := by
  cases es with
  | nil => cases h
  | cons f es =>
    obtain ⟨form, place⟩ := f
    cases form with
    | conditional => rfl
    | _ => cases h

theorem twins_cons (hs : s.lexicon.countedLoops = true) (hs' : s'.lexicon.countedLoops = false)
    (hf : Form.Rel (fun v v' => v.id = v'.id) Expr.SameUses
      (fun stmt stmt' => Restates stmt.visits stmt'.visits) (TwinsWithin b H s s') f f')
    (hes : TwinsWithin b H s s' es es') :
    TwinsWithin b H s s' (.mk f p :: es) (.mk f' p :: es') := by
  intro hwithin
  obtain ⟨hheader, hbranches, hrest⟩ := hwithin.of_cons
  have helement := simulates_element (simulates_form (p := p) hs hs' hf hheader hbranches)
  have hlead (f : FormCode) : Flat ((leadParts f).map owned) [] := by
    refine (flat_leadParts f).owned ?_
    unfold leadParts
    split <;> simp
  have hes := hes hrest
  have hchain : Simulates b H (codeVisits s.target (.mk f p :: es))
      (codeVisits s'.target (.mk f' p :: es')) (codeParts s (.mk f p :: es))
      (codeParts s' (.mk f' p :: es')) := by
    rw [codeVisits, codeVisits, codeParts, codeParts]
    exact (helement.after (hlead f) (hlead f')).append hes.chain
  refine ⟨hchain, ?_, by simpa [Element.form] using hf.isConditional_eq⟩
  have hchained : Execution.chained (.mk f p :: es) = Execution.chained (.mk f' p :: es') := by
    rw [chained_cons, chained_cons, hes.head]
    congr 1
    simp [Element.isEmptyBlock, Element.form, Element.place, hf.isEmptyBlock_eq]
  rw [Execution.elseParts_some, Execution.elseParts_some, ← hchained]
  cases h : Execution.chained (.mk f p :: es) with
  | false =>
    rw [if_neg Bool.false_ne_true, if_neg Bool.false_ne_true]
    exact hchain.braced.word _ (by simp [Part.bracket?]) (by simp)
  | true =>
    have h' := hchained ▸ h
    rw [chained_cons, Bool.and_eq_true] at h h'
    have hvisits (t : Target) {f : FormCode} {es : Code}
        (h : (Element.mk f p).isEmptyBlock = true) :
        codeVisits t (.mk f p :: es) = codeVisits t es := by
      obtain rfl : f = .block [] := Element.form_of_isEmptyBlock _ h
      rfl
    have hrest := hes.chain
    rw [codeParts_of_conditional s h.2, codeParts_of_conditional s' h'.2] at hrest
    rw [if_pos rfl, if_pos rfl, hvisits _ h.1, hvisits _ h'.1]
    exact hrest.of_newline.word _ (by simp [Part.bracket?]) (by simp)

end Forms

section Traversals

variable {κ : Type} {b : Body κ} {H : VariableId → Prop} [DecidablePred H] {s s' : Style}
  {view view' : κ → ClassText} {walk walk' : ConstructionId → Walking Code}

theorem pairs_elseBranch (hs : s.lexicon.countedLoops = true)
    (hs' : s'.lexicon.countedLoops = false)
    (hwalk : ∀ id, Pairs (walk id) (walk' id) (TwinsWithin b H s s')) (id : ConstructionId) :
    Pairs ((s.context view b).elseBranch walk id) ((s'.context view' b).elseBranch walk' id)
      (TwinsWithin b H s s') := by
  have helse : Pairs (liftM ((s.context view b).elseIf? id) : Walking _)
      (liftM ((s'.context view' b).elseIf? id)) Eq := by
    intro o o' ho ho'
    have hlook := ho.ensured Ensures.lift
    exact Except.ok.inj (hlook.symm.trans (ho'.ensured Ensures.lift))
  refine helse.bind ?_
  rintro follower _ rfl
  cases follower with
  | none => exact hwalk id
  | some next =>
    refine (pairs_enter id).bind ?_
    rintro carrier _ rfl
    exact (hwalk next).map fun _ _ h => twins_cons hs hs' (.block .nil) h

/-- One body is unfolded into chains that declare the same in each block, except for what
the headers of counted loops declare. -/
theorem pairs_unfoldWithin (hs : s.lexicon.countedLoops = true)
    (hs' : s'.lexicon.countedLoops = false)
    (hview : ∀ cls, (view' cls).interface.isSome = (view cls).interface.isSome)
    (hcompound : ∀ op, (s.target.compoundToken? op).isNone = true →
      (s'.target.compoundToken? op).isNone = true) (n : Nat) (head : Option ConstructionId) :
    Pairs ((s.context view b).unfoldWithin n head) ((s'.context view' b).unfoldWithin n head)
      (TwinsWithin b H s s') := by
  induction n generalizing head with
  | zero =>
    cases head with
    | none => exact .pure fun _ => twins_nil
    | some id => exact (Pairs.trivial _ _).bind fun _ _ _ => .throw_left
  | succ n ih =>
    cases head with
    | none => exact .pure fun _ => twins_nil
    | some id =>
      refine (pairs_enter id).bind ?_
      rintro construction _ rfl
      refine (Pairs.trivial _ _).bind fun _ _ _ => ?_
      have hform := pairs_unfoldForm (pairs_bind (s.context view b) (s'.context view' b))
        (fun skip => pairs_expr hview skip.negate) (pairs_expr hview) (pairs_stmt hview hcompound)
        (fun branch => ih (some branch)) (pairs_elseBranch hs hs' fun branch => ih (some branch))
        construction.form
      exact hform.bind fun _ _ hf => (ih construction.next).map fun _ _ hes =>
        twins_cons hs hs' hf hes

theorem pairs_unfold (hs : s.lexicon.countedLoops = true) (hs' : s'.lexicon.countedLoops = false)
    (hview : ∀ cls, (view' cls).interface.isSome = (view cls).interface.isSome)
    (hcompound : ∀ op, (s.target.compoundToken? op).isNone = true →
      (s'.target.compoundToken? op).isNone = true) (head : Option ConstructionId) :
    Pairs ((s.context view b).unfold head) ((s'.context view' b).unfold head)
      (TwinsWithin b H s s') := pairs_unfoldWithin hs hs' hview hcompound _ head

theorem follows_of_unfold {head : Option ConstructionId} {sc t : Scope} {code : Code}
    (hsc : sc.Consistent b) (h : ((s.context view b).unfold head).run.run sc = (.ok code, t)) :
    Follows b sc.history (codeVisits s.target code) := by
  obtain ⟨vs, hpath, -, (hcode : variableVisits vs = codeVisits s.target code)⟩ := (walks_unfold
    (c := s.context view b) (R := fun _ => True) (fun _ _ _ _ => trivial) head (fun _ _ => trivial)
    sc hsc (KeySet.missing_le_size _ _)).result h
  rw [← hcode]
  exact (hpath.follows hsc).variables

end Traversals

section Clashes

variable {H : VariableId → Prop} [DecidablePred H] {rs rs' : List Region}

/-- If names in one text are declared once in each block, then of two equal ones in a
block of the other text one is in the set. -/
theorem AlikeOutside.pairwise (h : AlikeOutside H rs rs')
    (hnodup : ∀ block ∈ Region.declarations rs, (block.map Occurrence.name).Nodup) :
    ∀ block ∈ Region.declarations rs',
      block.Pairwise fun v w => v.name = w.name → H v.id ∨ H w.id := by
  intro block hblock
  have hmap : (Region.declarations rs).map (outsideOf H) =
      (Region.declarations rs').map (outsideOf H) := by
    simp [Region.declarations, h.declared, h.inner]
  obtain ⟨found, hfound, hsame⟩ :
      ∃ found ∈ Region.declarations rs, outsideOf H found = outsideOf H block :=
    List.mem_map.mp (hmap ▸ List.mem_map_of_mem hblock)
  have hpairwise : (outsideOf H found).Pairwise fun v w => v.name ≠ w.name :=
    (List.pairwise_map.mp (hnodup found hfound)).filter _
  rw [hsame, outsideOf, List.pairwise_filter] at hpairwise
  refine hpairwise.imp fun hne hname => ?_
  by_contra hid
  rw [not_or] at hid
  exact hne (by simpa using hid.1) (by simpa using hid.2) hname

theorem reads_sameLine {s : Style} {code : Code} (h : Reads ((codeParts s code).map owned) rs)
    (sameLine : Bool) : Reads ((Code.parts s sameLine code).map owned) rs := by
  cases code with
  | nil => exact h
  | cons e es =>
    cases sameLine with
    | false => exact h
    | true =>
      rw [codeParts, leadParts] at h
      split at h
      · exact h
      · exact reads_of_newline h

/-- The text of a body in Kotlin declares a name twice in a block only where the text in
Java does so too, or where one of the two variables is declared there in the header of a
counted loop. -/
theorem clashes_hoisted (width width' : Nat) {depth : Nat} (b : Body (ClassTree depth))
    (head : Option ConstructionId) (sameLine : Bool) {sc t t' : Scope} (hsc : sc.Consistent b)
    {events events' : List Event} {code code' : Code}
    (hjava : ((Style.context ⟨.java, width⟩ (ClassTree.toText ⟨.java, width⟩) b).unfold
      head).run.run { sc with events } = (.ok code, t))
    (hkotlin : ((Style.context ⟨.kotlin, width'⟩ (ClassTree.toText ⟨.kotlin, width'⟩) b).unfold
      head).run.run { sc with events := events' } = (.ok code', t'))
    (hnodup : ∀ block ∈ declarationsOf (Code.parts ⟨.java, width⟩ sameLine code),
      (block.map Occurrence.name).Nodup) :
    leavesOf ⟨.java, width⟩ (Code.parts ⟨.java, width⟩ sameLine code) =
        (Code.doc ⟨.java, width⟩ sameLine code).leaves ∧
      leavesOf ⟨.kotlin, width'⟩ (Code.parts ⟨.kotlin, width'⟩ sameLine code') =
        (Code.doc ⟨.kotlin, width'⟩ sameLine code').leaves ∧
      ∀ block ∈ declarationsOf (Code.parts ⟨.kotlin, width'⟩ sameLine code'),
        block.Pairwise fun v w => v.name = w.name → Hoisted code v.id ∨ Hoisted code w.id := by
  classical
  refine ⟨Code.leavesOf_parts _ sameLine code, Code.leavesOf_parts _ sameLine code', ?_⟩
  have hview (cls : ClassTree depth) : (ClassTree.toText ⟨.kotlin, width'⟩ cls).interface.isSome =
      (ClassTree.toText ⟨.java, width⟩ cls).interface.isSome :=
    (ClassTree.viewsAgree ⟨.java, width⟩ ⟨.kotlin, width'⟩).drops cls
  have hcompound (op : BinaryOp) (h : (Target.java.compoundToken? op).isNone = true) :
      (Target.kotlin.compoundToken? op).isNone = true := by
    cases op <;> first | rfl | cases h
  have htwins : TwinsWithin b (Hoisted code) ⟨.java, width⟩ ⟨.kotlin, width'⟩ code code' :=
    pairs_unfold rfl rfl hview hcompound head code code' ⟨_, _, hjava⟩ ⟨_, _, hkotlin⟩
  have hvisits := follows_of_unfold hsc.events hjava
  have hvisits' := follows_of_unfold hsc.events hkotlin
  obtain ⟨-, rs, rs', hrs, hrs', halike⟩ :=
    (htwins fun _ => id).chain sc.history sc.history hvisits hvisits' fun _ _ _ _ _ => .rfl
  rw [declarationsOf, (reads_sameLine hrs sameLine).readBlocks_eq] at hnodup
  rw [declarationsOf, (reads_sameLine hrs' sameLine).readBlocks_eq]
  exact halike.pairwise hnodup

/-- Two counted loops, one after another, with two variables of one name. -/
def twoLoops : Body (ClassTree 0) :=
  let loop (v : VariableId) (body : ConstructionId) (next : Option ConstructionId) :
      Construction (ClassTree 0) :=
    { form := .countedLoop (some (.assign (.var v) (.const (.int 0))))
        (.binary .ge (.var v) (.const (.int 3)))
        (some (.eval (.stepAfter .increment (.var v)))) body
      next }
  let call (f : String) : Construction (ClassTree 0) := { form := .block [.eval (.apply f [])] }
  { vars := ⟨[⟨1, some ⟨"i", "int", .localVar⟩⟩, ⟨1, some ⟨"i", "int", .localVar⟩⟩], []⟩
    constructions := ⟨[⟨1, some (loop ⟨1, 1⟩ ⟨2, 1⟩ (some ⟨3, 1⟩))⟩, ⟨1, some (call "f")⟩,
      ⟨1, some (loop ⟨2, 1⟩ ⟨4, 1⟩ none)⟩, ⟨1, some (call "g")⟩], []⟩
    entry := some ⟨1, 1⟩ }

abbrev unfolded (s : Style) (b : Body (ClassTree 0)) : Except PrintError Code × Scope :=
  ((s.context (ClassTree.toText s) b).unfold b.entry).run.run {}

theorem java_twoLoops : ∃ code t, unfolded ⟨.java, 4⟩ twoLoops = (.ok code, t) ∧
    ∀ block ∈ declarationsOf (Code.parts ⟨.java, 4⟩ false code),
      (block.map Occurrence.name).Nodup := ⟨_, _, rfl, by decide +kernel⟩

theorem kotlin_twoLoops : ∃ code t, unfolded ⟨.kotlin, 4⟩ twoLoops = (.ok code, t) ∧
    ¬ ∀ block ∈ declarationsOf (Code.parts ⟨.kotlin, 4⟩ false code),
      (block.map Occurrence.name).Nodup := ⟨_, _, rfl, by decide +kernel⟩

theorem clashes_hoisted_twoLoops : ∃ code code' t t',
    unfolded ⟨.java, 4⟩ twoLoops = (.ok code, t) ∧
    unfolded ⟨.kotlin, 4⟩ twoLoops = (.ok code', t') ∧
    (∀ block ∈ declarationsOf (Code.parts ⟨.java, 4⟩ false code),
      (block.map Occurrence.name).Nodup) ∧
    ∀ block ∈ declarationsOf (Code.parts ⟨.kotlin, 4⟩ false code'),
      block.Pairwise fun v w => v.name = w.name → Hoisted code v.id ∨ Hoisted code w.id := by
  obtain ⟨code, t, hjava, hnodup⟩ := java_twoLoops
  obtain ⟨code', t', hkotlin, -⟩ := kotlin_twoLoops
  exact ⟨code, code', t, t', hjava, hkotlin, hnodup, (clashes_hoisted 4 4 twoLoops twoLoops.entry
    false (Scope.consistent_fresh twoLoops []) hjava hkotlin hnodup).2.2⟩

/-- The variables of both loops are declared around the loops in Kotlin. -/
theorem exists_clash : ∃ (b : Body (ClassTree 0)) (code code' : Code) (t t' : Scope),
    unfolded ⟨.java, 4⟩ b = (.ok code, t) ∧ unfolded ⟨.kotlin, 4⟩ b = (.ok code', t') ∧
      (∀ block ∈ declarationsOf (Code.parts ⟨.java, 4⟩ false code),
        (block.map Occurrence.name).Nodup) ∧
      ¬ ∀ block ∈ declarationsOf (Code.parts ⟨.kotlin, 4⟩ false code'),
        (block.map Occurrence.name).Nodup := by
  obtain ⟨code, t, hjava, hnodup⟩ := java_twoLoops
  obtain ⟨code', t', hkotlin, hclash⟩ := kotlin_twoLoops
  exact ⟨twoLoops, code, code', t, t', hjava, hkotlin, hnodup, hclash⟩

end Clashes

end Unparse
