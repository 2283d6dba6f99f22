import Unparse.Proofs.Renaming.Bodies
import Unparse.Proofs.Renaming.Documents
import Unparse.Proofs.Renaming.Mirror
import Unparse.Proofs.Walk.Depth

/-! # Traversals of renamed bodies

Traversals of bodies that are the same up to their keys mirror one another. A scope
is only asked whether it holds a key, so the numbers of slots and the versions that
keys are made of have no influence.
-/

namespace Unparse

open Layout (Doc)
open Layout.Doc (Like)
open Walking

variable {κ κ' : Type} {V : VariableId → VariableId → Prop} {K : κ → κ' → Prop}
  {C : ConstructionId → ConstructionId → Prop} {b : Body κ} {b' : Body κ'}

theorem enter_cases {k : ConstructionId} {c : Construction κ} {s : Scope} (hs : s.Consistent b)
    (hc : b.constructions.get? k = some c) :
    (s.visited.contains k = true ∧ (b.enter k).run.run s = (.error (.revisitedConstruction k), s)) ∨
      (s.visited.contains k = false ∧
        ∃ t, (b.enter k).run.run s = (.ok c, t) ∧ Takes b s (.enter k) t) := by
  rcases hrun : (b.enter k).run.run s with ⟨e | d, t⟩
  · obtain ⟨rfl, ⟨-, hlive⟩ | ⟨rfl, hvisited⟩⟩ := (meets_enter hs k).failure hrun
    · simp [Arena.contains, hc] at hlive
    · exact .inl ⟨hvisited, rfl⟩
  · obtain ⟨hd, ht, -⟩ := (meets_enter hs k).result hrun
    obtain rfl : c = d := Option.some.inj (hc.symm.trans hd)
    refine .inr ⟨?_, t, rfl, ht⟩
    cases ht with
    | enter hc hf => simpa [KeySet.insert_fst_of_live _ hc] using hf

namespace Scope.Renamed

variable {s s' t t' : Scope} {i i' : VariableId}

theorem insert_declared (hbody : b.Renamed V K C b') (h : Scope.Renamed V C b b' s s')
    (hi : V i i') {v : Variable} (hv : b.vars.get? i = some v) :
    (s.declared.insert i).1 = (s'.declared.insert i').1 ∧
      ∀ {j j'}, V j j' →
        (s.declared.insert i).2.contains j = (s'.declared.insert i').2.contains j' := by
  have hv' : b'.vars.get? i' = some v := by rw [← hbody.lookup_eq hi, hv]
  refine ⟨?_, fun hj => ?_⟩
  · rw [KeySet.insert_fst_of_live _ hv, KeySet.insert_fst_of_live _ hv', h.declared hi]
  · rw [h.left.declaredLive.contains_insert hv, h.right.declaredLive.contains_insert hv',
      hbody.variable_beq hj hi hv, h.declared hj]

theorem use (hbody : b.Renamed V K C b') (h : Scope.Renamed V C b b' s s') {a a' : Occurrence}
    (ha : V a.id a'.id) (ht : Takes b s (.use a) t) (ht' : Takes b' s' (.use a') t') :
    a.Alike a' ∧ Scope.Renamed V C b b' t t' := by
  have hleft := ht.consistent h.left
  have hright := ht'.consistent h.right
  cases ht with
  | @useLocal id v hv hk =>
    have heq := hbody.lookup_eq ha
    obtain ⟨hfirst, hcontains⟩ := h.insert_declared hbody ha hv
    cases ht' with
    | @useLocal id' v' hv' hk' =>
      obtain rfl : v = v' := by simpa [hv, hv'] using heq
      exact ⟨⟨rfl, rfl, hfirst⟩, hleft, hright, hcontains, h.visited⟩
    | @useOther id' v' hv' hk' =>
      obtain rfl : v = v' := by simpa [hv, hv'] using heq
      exact absurd hk hk'
  | @useOther id v hv hk =>
    have heq := hbody.lookup_eq ha
    cases ht' with
    | @useLocal id' v' hv' hk' =>
      obtain rfl : v = v' := by simpa [hv, hv'] using heq
      exact absurd hk' hk
    | @useOther id' v' hv' hk' =>
      obtain rfl : v = v' := by simpa [hv, hv'] using heq
      exact ⟨⟨rfl, rfl, rfl⟩, hleft, hright, h.declared, h.visited⟩

theorem bind (hbody : b.Renamed V K C b') (h : Scope.Renamed V C b b' s s') {a a' : Occurrence}
    (ha : V a.id a'.id) (ht : Takes b s (.bind a) t) (ht' : Takes b' s' (.bind a') t') :
    a.Alike a' ∧ Scope.Renamed V C b b' t t' := by
  have hleft := ht.consistent h.left
  have hright := ht'.consistent h.right
  cases ht with
  | @bind id v hv =>
    have heq := hbody.lookup_eq ha
    obtain ⟨-, hcontains⟩ := h.insert_declared hbody ha hv
    cases ht' with
    | @bind id' v' hv' =>
      obtain rfl : v = v' := by simpa [hv, hv'] using heq
      exact ⟨⟨rfl, rfl, rfl⟩, hleft, hright, hcontains, h.visited⟩

theorem enter (hbody : b.Renamed V K C b') (h : Scope.Renamed V C b b' s s')
    {k k' : ConstructionId} (hk : C k k') (ht : Takes b s (.enter k) t)
    (ht' : Takes b' s' (.enter k') t') : Scope.Renamed V C b b' t t' := by
  have hleft := ht.consistent h.left
  have hright := ht'.consistent h.right
  cases ht with
  | @enter k c hc hf =>
    cases ht' with
    | @enter k' c' hc' hf' =>
      refine ⟨hleft, hright, h.declared, fun hl => ?_⟩
      change (s.visited.insert k).2.contains _ = (s'.visited.insert k').2.contains _
      rw [h.left.visitedLive.contains_insert hc, h.right.visitedLive.contains_insert hc',
        hbody.construction_beq hl hk hc, h.visited hl]

end Scope.Renamed

/-- Classes that look alike from outside, up to comments. As a declaration, a class
starts on a line of its own. -/
structure ClassText.Alike (E : PrintError → PrintError → Prop) (W : String → String → Prop)
    (x x' : ClassText) : Prop where
  interface : x.interface = x'.interface
  superclass : x.superclass = x'.superclass
  declaration : Printing.Mirror E x.declaration x'.declaration
    fun d d' => Doc.Alike W .fresh d d' .loose
  members : Printing.Mirror E x.members x'.members (Like W)

section Traversals

variable {E : PrintError → PrintError → Prop} {W : String → String → Prop} {s : Style}
  {view : κ → ClassText} {view' : κ' → ClassText} {α β : Type}

theorem mirror_report {S : Scope → Scope → Prop}
    (hS : ∀ {s s'} (events events'), S s s' → S { s with events } { s' with events := events' })
    (e e' : Event) : Mirror E S (report e) (report e') fun _ _ => True :=
  fun _ _ hs => ⟨.ok trivial, hS _ _ hs⟩

variable (hbody : b.Renamed V K C b') (hE : ∀ e e', PrintError.Renamed V C e e' → E e e')

include hbody hE

theorem mirror_peek {k k' : ConstructionId} (hk : C k k') :
    Twin E (Construction.Renamed V K C) (b.peek k) (b'.peek k') := by
  have hrel := hbody.peek_rel hk
  unfold Body.peek
  generalize b.constructions.get? k = o at hrel
  generalize b'.constructions.get? k' = o' at hrel
  cases hrel with
  | none => exact .error (hE _ _ (.unknownConstruction hk))
  | some h => exact .ok h

theorem mirror_visit (visit : Occurrence → Visit) {w w' : Walking Occurrence} {i i' : VariableId}
    (hi : V i i')
    (hw : ∀ v, b.vars.get? i = some v → ∀ s,
      Meets s w (fun a t => a.id = i ∧ Takes b s (visit a) t) fun _ _ => False)
    (hw' : ∀ v, b'.vars.get? i' = some v → ∀ s,
      Meets s w' (fun a t => a.id = i' ∧ Takes b' s (visit a) t) fun _ _ => False)
    (hnone : b.vars.get? i = none → w = throw (.unknownVariable i))
    (hnone' : b'.vars.get? i' = none → w' = throw (.unknownVariable i'))
    (hvisit : ∀ {s s' t t' a a'}, Scope.Renamed V C b b' s s' → V a.id a'.id →
      Takes b s (visit a) t → Takes b' s' (visit a') t' → a.Alike a' ∧ Scope.Renamed V C b b' t t') :
    Mirror E (Scope.Renamed V C b b') w w' Occurrence.Alike := by
  have heq := hbody.lookup_eq hi
  cases hv : b.vars.get? i with
  | none =>
    rw [hnone hv, hnone' (heq.symm.trans hv)]
    exact .throw (hE _ _ (.unknownVariable hi))
  | some v =>
    intro sc sc' h
    obtain ⟨a, t, hrun, rfl, ht⟩ := (hw v hv sc).exists_result
    obtain ⟨a', t', hrun', rfl, ht'⟩ := (hw' v (heq.symm.trans hv) sc').exists_result
    rw [hrun, hrun']
    obtain ⟨halike, hend⟩ := hvisit h hi ht ht'
    exact ⟨.ok halike, hend⟩

theorem mirror_use {i i' : VariableId} (hi : V i i') :
    Mirror E (Scope.Renamed V C b b') ((s.context view b).use i) ((s.context view' b').use i')
      Occurrence.Alike :=
  mirror_visit hbody hE .use hi (fun _ => takes_use (c := s.context view b))
    (fun _ => takes_use (c := s.context view' b')) (Context.use_of_none (c := s.context view b))
    (Context.use_of_none (c := s.context view' b')) fun h => h.use hbody

theorem mirror_bind {i i' : VariableId} (hi : V i i') :
    Mirror E (Scope.Renamed V C b b') ((s.context view b).bind i) ((s.context view' b').bind i')
      Occurrence.Alike :=
  mirror_visit hbody hE .bind hi (fun _ => takes_bind (c := s.context view b))
    (fun _ => takes_bind (c := s.context view' b')) (Context.bind_of_none (c := s.context view b))
    (Context.bind_of_none (c := s.context view' b')) fun h => h.bind hbody

theorem mirror_enter {k k' : ConstructionId} (hk : C k k') :
    Mirror E (Scope.Renamed V C b b') (b.enter k) (b'.enter k') (Construction.Renamed V K C) := by
  intro sc sc' h
  have hrel := hbody.peek_rel hk
  have hvisited := h.visited hk
  cases hc : b.constructions.get? k with
  | none =>
    cases hc' : b'.constructions.get? k' with
    | some c' =>
      rw [hc, hc'] at hrel
      cases hrel
    | none =>
      simp only [Body.enter, Body.peek, hc, hc']
      exact ⟨.error (hE _ _ (.unknownConstruction hk)), h⟩
  | some c =>
    cases hc' : b'.constructions.get? k' with
    | none =>
      rw [hc, hc'] at hrel
      cases hrel
    | some c' =>
      rw [hc, hc'] at hrel
      rcases enter_cases h.left hc with ⟨hk₁, hrun⟩ | ⟨hk₁, t, hrun, ht⟩ <;>
        rcases enter_cases h.right hc' with ⟨hk₂, hrun'⟩ | ⟨hk₂, t', hrun', ht'⟩ <;>
        rw [hk₁, hk₂] at hvisited
      · rw [hrun, hrun']
        exact ⟨.error (hE _ _ (.revisitedConstruction hk)), h⟩
      · cases hvisited
      · cases hvisited
      · rw [hrun, hrun']
        cases hrel with
        | some hrel => exact ⟨.ok hrel, h.enter hbody hk ht ht'⟩

omit hE in
theorem isThis_map (both : Expr (Related V) (Related K)) :
    b.isThis (both.map (·.val.1) (·.val.1)) = b'.isThis (both.map (·.val.2) (·.val.2)) := by
  cases both with
  | var v =>
    simp only [Expr.map, Body.isThis]
    rw [hbody.lookup_eq v.property]
  | createArray element dimensions initializer => cases initializer <;> rfl
  | _ => rfl

variable (hview : ∀ cls cls', K cls cls' → ClassText.Alike E W (view cls) (view' cls'))

omit hbody hE in
theorem mirror_resolveAll {es : List (Expr (Related V) (Related K))}
    (h : ∀ both ∈ es, Mirror E (Scope.Renamed V C b b')
      ((both.map (·.val.1) (·.val.1)).resolve (s.context view b))
      ((both.map (·.val.2) (·.val.2)).resolve (s.context view' b')) (Expr.Alike W s)) :
    Mirror E (Scope.Renamed V C b b')
      (Expr.resolveAll (s.context view b) (Expr.mapAll (·.val.1) (·.val.1) es))
      (Expr.resolveAll (s.context view' b') (Expr.mapAll (·.val.2) (·.val.2) es))
      (List.Forall₂ (Expr.Alike W s)) := by
  induction es with
  | nil => exact .pure .nil
  | cons e es ih =>
    refine (h e List.mem_cons_self).bind fun code code' hcode => ?_
    exact (ih fun x hx => h x (List.mem_cons_of_mem e hx)).map fun _ _ hcodes => .cons hcode hcodes

include hview

/-- Expressions that are the same up to keys are resolved to code that is alike. -/
theorem mirror_map (both : Expr (Related V) (Related K)) :
    Mirror E (Scope.Renamed V C b b')
      ((both.map (·.val.1) (·.val.1)).resolve (s.context view b))
      ((both.map (·.val.2) (·.val.2)).resolve (s.context view' b')) (Expr.Alike W s) := by
  induction both using Expr.induct with
  | const value => exact .pure (.refl _)
  | staticField qualifier name => exact .pure (.refl _)
  | var v => exact (mirror_use hbody hE v.property).map fun _ _ => .var
  | unary op e ih => exact ih.map fun _ _ h => h.unary op
  | field e name ih => exact ih.map fun _ _ h => h.field name
  | length e ih => exact ih.map fun _ _ h => h.length
  | cast type e ih => exact ih.map fun _ _ h => h.cast type
  | instanceOf e type inverted ih => exact ih.map fun _ _ h => h.instanceOf type inverted
  | stepBefore step e ih => exact ih.map fun _ _ h => h.stepBefore step
  | stepAfter step e ih => exact ih.map fun _ _ h => h.stepAfter step
  | binary op l r ihl ihr => exact ihl.bind fun _ _ hl => ihr.map fun _ _ hr => hl.binary hr op
  | index l r ihl ihr => exact ihl.bind fun _ _ hl => ihr.map fun _ _ hr => hl.index hr
  | ternary e l r ihe ihl ihr =>
    exact ihe.bind fun _ _ he => ihl.bind fun _ _ hl => ihr.map fun _ _ hr => he.ternary hl hr
  | compound op l r ihl ihr =>
    rw [Expr.map, Expr.map, Expr.resolve, Expr.resolve]
    refine .ite Iff.rfl (.throw_bind (hE _ _ (.unexpandableCompound op))) ?_
    exact ihl.bind fun _ _ hl => ihr.map fun _ _ hr => hl.compound hr op
  | call receiver checked function args ihr ihargs =>
    have hthis := isThis_map hbody receiver
    have hargs := mirror_resolveAll ihargs
    rw [Expr.map, Expr.map, Expr.resolve, Expr.resolve]
    refine .ite (Eq.congr_left hthis) ?_ ?_
    · exact hargs.map fun _ _ h => .apply h function
    · exact ihr.bind fun _ _ hr => hargs.map fun _ _ h => hr.call h checked function
  | apply function args ih => exact (mirror_resolveAll ih).map fun _ _ h => .apply h function
  | create cls args ih => exact (mirror_resolveAll ih).map fun _ _ h => .create h cls
  | createArray element dimensions initializer ihd ihi =>
    cases initializer with
    | none => exact (mirror_resolveAll ihd).map fun _ _ h => .createArray h element
    | some elements =>
      exact (mirror_resolveAll (ihi elements rfl)).map fun _ _ h =>
        .createArray_elements h element
  | anonymous cls args ih =>
    obtain ⟨hinterface, hsuperclass, -, hmembers⟩ := hview _ _ cls.property
    have hclass {args args' : List ExprCode} (h : List.Forall₂ (Expr.Alike W s) args args') :
        Mirror E (Scope.Renamed V C b b')
          (do
            let members ← outside (view cls.val.1).members
            return Expr.anonymous
              ⟨(view cls.val.1).interface, (view cls.val.1).superclass, members⟩ args)
          (do
            let members ← outside (view' cls.val.2).members
            return Expr.anonymous
              ⟨(view' cls.val.2).interface, (view' cls.val.2).superclass, members⟩ args')
          (Expr.Alike W s) := by
      rw [hinterface, hsuperclass]
      exact (mirror_outside (fun _ _ h => h.events _ _) hmembers).map fun _ _ hm =>
        .anonymous h hm _ _
    rw [Expr.map, Expr.map, Expr.resolve, Expr.resolve]
    refine .ite (Eq.congr_left (congrArg Option.isSome hinterface)) ?_ ?_
    · exact hclass .nil
    · exact (mirror_resolveAll ih).bind fun _ _ h => hclass h

theorem mirror_expr {e : Expr VariableId κ} {e' : Expr VariableId κ'} (h : e.Renamed V K e') :
    Mirror E (Scope.Renamed V C b b') (e.resolve (s.context view b))
      (e'.resolve (s.context view' b')) (Expr.Alike W s) := by
  obtain ⟨both, rfl, rfl⟩ := h
  exact mirror_map hbody hE hview both

theorem mirror_guard {e : Expr VariableId κ} {e' : Expr VariableId κ'} (h : e.Renamed V K e') :
    Mirror E (Scope.Renamed V C b b') ((s.context view b).guard e)
      ((s.context view' b').guard e') (Expr.Alike W s) :=
  mirror_expr hbody hE hview h.negate

theorem mirror_stmt {stmt : Stmt VariableId κ} {stmt' : Stmt VariableId κ'}
    (h : stmt.Renamed V K stmt') :
    Mirror E (Scope.Renamed V C b b') (stmt.resolve (s.context view b))
      (stmt'.resolve (s.context view' b')) (StmtCode.Alike W s) := by
  cases h with
  | eval h =>
    obtain ⟨both, rfl, rfl⟩ := h
    have hboth := mirror_map hbody hE hview both (s := s)
    cases both with
    | compound op target amount =>
      have htarget := mirror_map hbody hE hview target (s := s)
      have hamount := mirror_map hbody hE hview amount (s := s)
      rw [Expr.map, Expr.map, Stmt.resolve, Stmt.resolve, Expr.isPure_map, Expr.isPure_map]
      refine .ite Iff.rfl ?_ ?_
      · exact htarget.bind fun _ _ hl => htarget.bind fun _ _ hagain => hamount.map fun _ _ hr =>
          .restated hl hagain hr op
      · exact hboth.map fun _ _ => .eval
    | createArray element dimensions initializer =>
      cases initializer <;> exact hboth.map fun _ _ => .eval
    | _ => exact hboth.map fun _ _ => .eval
  | assign ht hv =>
    exact (mirror_expr hbody hE hview ht).bind fun _ _ hl =>
      (mirror_expr hbody hE hview hv).map fun _ _ hr => .assign hl hr
  | ret h explicit =>
    cases h with
    | none => exact .pure ⟨.refl _, rfl⟩
    | some h => exact (mirror_expr hbody hE hview h).map fun _ _ h => .ret h explicit
  | throw h => exact (mirror_expr hbody hE hview h).map fun _ _ => .throw

end Traversals

end Unparse
