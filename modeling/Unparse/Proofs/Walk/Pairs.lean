import Unparse.Print.Class
import Unparse.Proofs.Walk.Ensures
import Unparse.Proofs.Walk.Resolve

/-! # Pairs of traversals

Two traversals that start from any two scopes may have related results. So the code of
one body can be compared for two target languages: it has the same control structures,
and in them the same variables are visited.
-/

namespace Unparse

open Walking

variable {κ α α' β β' : Type}

def Gives (w : Walking α) (a : α) : Prop := ∃ s s', w.run.run s = (.ok a, s')

/-- Whatever scopes two traversals start from, their results are related. -/
def Pairs (w : Walking α) (w' : Walking α') (R : α → α' → Prop) : Prop :=
  ∀ a a', Gives w a → Gives w' a' → R a a'

theorem Ensures.gives (w : Walking α) : Ensures w (Gives w) := by
  intro s
  unfold Meets
  split
  · next a s' hrun => exact ⟨s, s', hrun⟩
  · trivial

theorem Gives.ensured {w : Walking α} {P : α → Prop} {a : α} (h : Gives w a) (hw : Ensures w P) :
    P a := by
  obtain ⟨s, s', hrun⟩ := h
  exact hw.result hrun

theorem Gives.bind {w : Walking α} {f : α → Walking β} {b : β} (h : Gives (w >>= f) b) :
    ∃ a, Gives w a ∧ Gives (f a) b := by
  have hbind : Ensures (w >>= f) fun b => ∃ a, Gives w a ∧ Gives (f a) b :=
    (Ensures.gives w).bind fun a ha => (Ensures.gives (f a)).mono fun b hb => ⟨a, ha, hb⟩
  exact h.ensured hbind

theorem Gives.map {w : Walking α} {g : α → β} {b : β} (h : Gives (do return g (← w)) b) :
    ∃ a, Gives w a ∧ b = g a := by
  obtain ⟨a, ha, s, s', hrun⟩ := h.bind
  cases hrun
  exact ⟨a, ha, rfl⟩

namespace Pairs

variable {w : Walking α} {w' : Walking α'} {R : α → α' → Prop} {Q : β → β' → Prop}

theorem trivial (w : Walking α) (w' : Walking α') : Pairs w w' fun _ _ => True :=
  fun _ _ _ _ => True.intro

theorem pure {a : α} {a' : α'} (h : R a a') : Pairs (Pure.pure a) (Pure.pure a') R := by
  rintro _ _ ⟨s, t, hrun⟩ ⟨s', t', hrun'⟩
  cases hrun
  cases hrun'
  exact h

theorem throw_left {e : PrintError} : Pairs (throw e : Walking α) w' R := by
  rintro _ _ ⟨s, t, hrun⟩
  cases hrun

theorem throw_right {e : PrintError} : Pairs w (throw e : Walking α') R := by
  rintro _ _ _ ⟨s, t, hrun⟩
  cases hrun

theorem bind {f : α → Walking β} {f' : α' → Walking β'} (h : Pairs w w' R)
    (hf : ∀ a a', R a a' → Pairs (f a) (f' a') Q) : Pairs (w >>= f) (w' >>= f') Q := by
  intro b b' hb hb'
  obtain ⟨a, ha, hb⟩ := hb.bind
  obtain ⟨a', ha', hb'⟩ := hb'.bind
  exact hf a a' (h a a' ha ha') b b' hb hb'

theorem map {g : α → β} {g' : α' → β'} (h : Pairs w w' R)
    (hg : ∀ a a', R a a' → Q (g a) (g' a')) : Pairs (do return g (← w)) (do return g' (← w')) Q :=
  h.bind fun a a' ha => .pure (hg a a' ha)

variable {γ : Type} {f : γ → Walking α} {f' : γ → Walking α'}

theorem mapM (h : ∀ x, Pairs (f x) (f' x) R) (xs : List γ) :
    Pairs (xs.mapM f) (xs.mapM f') (List.Forall₂ R) := by
  induction xs with
  | nil => exact .pure .nil
  | cons x xs ih =>
    rw [List.mapM_cons, List.mapM_cons]
    exact (h x).bind fun a a' ha => ih.map fun as as' has => .cons ha has

theorem optional (h : ∀ x, Pairs (f x) (f' x) R) (o : Option γ) :
    Pairs (o.mapM f) (o.mapM f') (Option.Rel R) := by
  cases o with
  | none => exact .pure .none
  | some x => exact (h x).bind fun _ _ ha => .pure (Option.Rel.some ha)

end Pairs

section Walk

variable {c c' : Context κ} {V : Occurrence → Occurrence → Prop} {E : ExprCode → ExprCode → Prop}
  {S : StmtCode → StmtCode → Prop} {B : Code → Code → Prop}
  {walk walk' : ConstructionId → Walking Code}

theorem gives_countedLoop {init : Option StmtCode} {skip : Expr VariableId κ}
    {update : Option (Stmt VariableId κ)} {body : ConstructionId} {form : FormCode}
    (h : Gives (if c.target.lexicon.countedLoops then do
        let condition ← c.guard skip
        let update ← update.mapM (Stmt.resolve c)
        return Form.countedLoop init condition update (← walk body)
      else do
        let body ← walk body
        let update ← update.mapM (Stmt.resolve c)
        return Form.countedLoop init (← c.guard skip) update body) form) :
    ∃ e u code, Gives (c.guard skip) e ∧ Gives (update.mapM (Stmt.resolve c)) u ∧
      Gives (walk body) code ∧ form = .countedLoop init e u code := by
  split at h
  · obtain ⟨e, he, h⟩ := h.bind
    obtain ⟨u, hu, h⟩ := h.bind
    obtain ⟨code, hcode, rfl⟩ := h.map
    exact ⟨e, u, code, he, hu, hcode, rfl⟩
  · obtain ⟨code, hcode, h⟩ := h.bind
    obtain ⟨u, hu, h⟩ := h.bind
    obtain ⟨e, he, rfl⟩ := h.map
    exact ⟨e, u, code, he, hu, hcode, rfl⟩

theorem pairs_unfoldForm (hbind : ∀ id, Pairs (c.bind id) (c'.bind id) V)
    (hguard : ∀ skip, Pairs (c.guard skip) (c'.guard skip) E)
    (hexpr : ∀ e : Expr VariableId κ, Pairs (e.resolve c) (e.resolve c') E)
    (hstmt : ∀ stmt : Stmt VariableId κ, Pairs (stmt.resolve c) (stmt.resolve c') S)
    (hwalk : ∀ id, Pairs (walk id) (walk' id) B)
    (helse : ∀ id, Pairs (c.elseBranch walk id) (c'.elseBranch walk' id) B)
    (form : Form VariableId (Expr VariableId κ) (Stmt VariableId κ) ConstructionId) :
    Pairs (c.unfoldForm walk form) (c'.unfoldForm walk' form) (Form.Rel V E S B) := by
  cases form with
  | block statements => exact (Pairs.mapM hstmt statements).map fun _ _ hs => .block hs
  | conditional skip whenTrue whenFalse =>
    exact (hguard skip).bind fun _ _ he => (hwalk whenTrue).bind fun _ _ ht =>
      (Pairs.optional helse whenFalse).map fun _ _ hf => .conditional he ht hf
  | whileLoop skip body =>
    exact (hguard skip).bind fun _ _ he => (hwalk body).map fun _ _ hb => .whileLoop he hb
  | doLoop condition body =>
    exact (hwalk body).bind fun _ _ hb => (hexpr condition).map fun _ _ he => .doLoop he hb
  | countedLoop init skip update body =>
    refine (Pairs.optional hstmt init).bind fun _ _ hi => ?_
    intro form form' hform hform'
    obtain ⟨e, u, code, he, hu, hcode, rfl⟩ := gives_countedLoop hform
    obtain ⟨e', u', code', he', hu', hcode', rfl⟩ := gives_countedLoop hform'
    exact .countedLoop hi (hguard skip e e' he he') (Pairs.optional hstmt update u u' hu hu')
      (hwalk body code code' hcode hcode')
  | forEach vars container body =>
    have hvars : Pairs (c.loopVariables vars) (c'.loopVariables vars) (List.Forall₂ V) := by
      unfold Context.loopVariables
      split
      · split
        · exact .mapM hbind vars
        · exact .throw_right
      · exact .throw_left
    exact hvars.bind fun _ _ hv => (hexpr container).bind fun _ _ he =>
      (hwalk body).map fun _ _ hb => .forEach hv he hb
  | guarded body handlers cleanup =>
    have hhandler (h : VariableId × ConstructionId) :
        Pairs (do return (← c.bind h.1, ← walk h.2)) (do return (← c'.bind h.1, ← walk' h.2))
          fun h h' => V h.1 h'.1 ∧ B h.2 h'.2 :=
      (hbind h.1).bind fun _ _ hv => (hwalk h.2).map fun _ _ hb => ⟨hv, hb⟩
    exact (hwalk body).bind fun _ _ hb => (Pairs.mapM hhandler handlers).bind fun _ _ hh =>
      (Pairs.optional hwalk cleanup).map fun _ _ hc => .guarded hb hh hc
  | switch selector cases =>
    have hcase (h : List (Option Literal) × ConstructionId) :
        Pairs (do return (h.1, ← walk h.2)) (do return (h.1, ← walk' h.2))
          fun h h' => h.1 = h'.1 ∧ B h.2 h'.2 :=
      (hwalk h.2).map fun _ _ hb => ⟨rfl, hb⟩
    exact (Pairs.mapM hcase cases).bind fun _ _ hc => (hexpr selector).map fun _ _ he =>
      .switch he hc
  | select selector arms fallback =>
    have harm (a : Expr VariableId κ × ConstructionId) :
        Pairs (do return (← a.1.resolve c, ← walk a.2)) (do return (← a.1.resolve c', ← walk' a.2))
          fun a a' => E a.1 a'.1 ∧ B a.2 a'.2 :=
      (hexpr a.1).bind fun _ _ he => (hwalk a.2).map fun _ _ hb => ⟨he, hb⟩
    exact (Pairs.mapM harm arms).bind fun _ _ ha => (Pairs.optional hwalk fallback).bind
      fun _ _ hf => (hexpr selector).map fun _ _ he => .select he ha hf

end Walk

inductive Visit.SameUse : Visit → Visit → Prop where
  | mk {v v' : Occurrence} (h : v.id = v'.id) : SameUse (.use v) (.use v')

/-- The same uses, but for a stretch of them that is repeated at once. -/
inductive Restates : List Visit → List Visit → Prop where
  | same {vs vs' : List Visit} (h : List.Forall₂ Visit.SameUse vs vs') : Restates vs vs'
  | again {vs vs' us ws ws' : List Visit} (h : List.Forall₂ Visit.SameUse vs vs')
    (hagain : List.Forall₂ Visit.SameUse vs us) (hrest : List.Forall₂ Visit.SameUse ws ws') :
    Restates (vs ++ ws) (vs' ++ us ++ ws')

section Uses

open Visit (SameUse)

variable {vs us : List Visit}

theorem concerns_of_sameUse (h : List.Forall₂ SameUse vs us) (id : VariableId) :
    (∃ x ∈ vs, x.Concerns id) ↔ ∃ x ∈ us, x.Concerns id := by
  induction h with
  | nil => rfl
  | @cons x y vs us hx _ ih =>
    have hconcerns : x.Concerns id ↔ y.Concerns id := by
      obtain ⟨hid⟩ := hx
      simp [Visit.Concerns, hid]
    rw [List.exists_mem_cons_iff, List.exists_mem_cons_iff, hconcerns, ih]

theorem uses_of_sameUse (h : List.Forall₂ SameUse vs us) :
    (∀ x ∈ vs, ∃ v, x = .use v) ∧ ∀ x ∈ us, ∃ v, x = .use v ∧ ∃ y ∈ vs, y.Concerns v.id := by
  induction h with
  | nil => exact ⟨nofun, nofun⟩
  | @cons x y vs us hx h ih =>
    obtain @⟨v, v', hid⟩ := hx
    refine ⟨List.forall_mem_cons.mpr ⟨⟨v, rfl⟩, ih.1⟩,
      List.forall_mem_cons.mpr ⟨⟨v', rfl, .use v, List.mem_cons_self, hid⟩, fun y hy => ?_⟩⟩
    obtain ⟨w, rfl, z, hz, hconcerns⟩ := ih.2 y hy
    exact ⟨w, rfl, z, List.mem_cons_of_mem _ hz, hconcerns⟩

theorem Restates.uses (h : Restates vs us) :
    (∀ x ∈ vs, ∃ v, x = .use v) ∧ ∀ x ∈ us, ∃ v, x = .use v ∧ ∃ y ∈ vs, y.Concerns v.id := by
  cases h with
  | same h => exact uses_of_sameUse h
  | again h hagain hrest =>
    obtain ⟨hleft, hright⟩ := uses_of_sameUse h
    obtain ⟨hlast, hlast'⟩ := uses_of_sameUse hrest
    have hwiden {ps qs : List Visit} {x : Visit} (hsub : ∀ y ∈ ps, y ∈ qs)
        (hx : ∃ v, x = .use v ∧ ∃ y ∈ ps, y.Concerns v.id) :
        ∃ v, x = .use v ∧ ∃ y ∈ qs, y.Concerns v.id := by
      obtain ⟨v, rfl, y, hy, hconcerns⟩ := hx
      exact ⟨v, rfl, y, hsub y hy, hconcerns⟩
    refine ⟨List.forall_mem_append.mpr ⟨hleft, hlast⟩, List.forall_mem_append.mpr
      ⟨List.forall_mem_append.mpr ⟨fun x hx => ?_, fun x hx => ?_⟩, fun x hx => ?_⟩⟩
    · exact hwiden (fun _ => List.mem_append_left _) (hright x hx)
    · exact hwiden (fun _ => List.mem_append_left _) ((uses_of_sameUse hagain).2 x hx)
    · exact hwiden (fun _ => List.mem_append_right _) (hlast' x hx)

end Uses

section Resolve

def Expr.SameUses (e e' : ExprCode) : Prop := List.Forall₂ Visit.SameUse e.visits e'.visits

variable {s s' : Style} {view view' : κ → ClassText} {b : Body κ}

theorem ensures_use (c : Context κ) (id : VariableId) : Ensures (c.use id) fun v => v.id = id := by
  intro s
  cases hv : c.body.vars.get? id with
  | none =>
    rw [Context.use_of_none hv]
    trivial
  | some v => exact (takes_use hv s).mono (fun _ _ h => h.1) fun _ _ => False.elim

theorem ensures_bind (c : Context κ) (id : VariableId) :
    Ensures (c.bind id) fun v => v.id = id := by
  intro s
  cases hv : c.body.vars.get? id with
  | none =>
    rw [Context.bind_of_none hv]
    trivial
  | some v => exact (takes_bind hv s).mono (fun _ _ h => h.1) fun _ _ => False.elim

theorem pairs_use (c c' : Context κ) (id : VariableId) :
    Pairs (c.use id) (c'.use id) fun v v' => v.id = v'.id :=
  fun _ _ hv hv' => (hv.ensured (ensures_use c id)).trans (hv'.ensured (ensures_use c' id)).symm

theorem pairs_bind (c c' : Context κ) (id : VariableId) :
    Pairs (c.bind id) (c'.bind id) fun v v' => v.id = v'.id :=
  fun _ _ hv hv' => (hv.ensured (ensures_bind c id)).trans (hv'.ensured (ensures_bind c' id)).symm

theorem pairs_enter (id : ConstructionId) : Pairs (b.enter id) (b.enter id) Eq := by
  intro c c' hc hc'
  have hget := hc.ensured (ensures_enter b id)
  exact Option.some.inj (hget.symm.trans (hc'.ensured (ensures_enter b id)))

theorem pairs_resolveAll {es : List (Expr VariableId κ)}
    (h : ∀ e ∈ es, Pairs (e.resolve (s.context view b)) (e.resolve (s'.context view' b))
      Expr.SameUses) :
    Pairs (Expr.resolveAll (s.context view b) es) (Expr.resolveAll (s'.context view' b) es)
      fun codes codes' =>
        List.Forall₂ Visit.SameUse (Expr.allVisits codes) (Expr.allVisits codes') := by
  induction es with
  | nil => exact .pure .nil
  | cons e es ih =>
    rw [Expr.resolveAll, Expr.resolveAll]
    exact (h e List.mem_cons_self).bind fun _ _ he =>
      (ih fun x hx => h x (List.mem_cons_of_mem e hx)).map fun _ _ hes => List.rel_append he hes

/-- An expression uses the same variables in every target language, if anonymous classes
have interfaces in both or in none. -/
theorem pairs_expr
    (hview : ∀ cls, (view' cls).interface.isSome = (view cls).interface.isSome)
    (e : Expr VariableId κ) :
    Pairs (e.resolve (s.context view b)) (e.resolve (s'.context view' b)) Expr.SameUses := by
  induction e using Expr.induct with
  | const value | staticField qualifier name => exact .pure .nil
  | var id => exact (pairs_use _ _ id).map fun v v' h => .cons ⟨h⟩ .nil
  | unary op e ih | field e name ih | length e ih | cast type e ih | instanceOf e type inverted ih
  | stepBefore step e ih | stepAfter step e ih => exact ih.map fun _ _ h => h
  | binary op l r ihl ihr | index l r ihl ihr =>
    exact ihl.bind fun _ _ hl => ihr.map fun _ _ hr => List.rel_append hl hr
  | ternary e l r ihe ihl ihr =>
    exact ihe.bind fun _ _ he => ihl.bind fun _ _ hl => ihr.map fun _ _ hr =>
      List.rel_append (List.rel_append he hl) hr
  | compound op l r ihl ihr =>
    rw [Expr.resolve, Expr.resolve]
    split
    · exact .throw_left
    · split
      · exact .throw_right
      · exact ihl.bind fun _ _ hl => ihr.map fun _ _ hr => List.rel_append hl hr
  | call receiver checked function args ihr ihargs =>
    rw [Expr.resolve, Expr.resolve]
    change Pairs (if b.isThis receiver then _ else _) (if b.isThis receiver then _ else _) _
    split
    · exact (pairs_resolveAll ihargs).map fun _ _ h => h
    · exact ihr.bind fun _ _ hr => (pairs_resolveAll ihargs).map fun _ _ h => List.rel_append hr h
  | apply function args ih | create cls args ih =>
    exact (pairs_resolveAll ih).map fun _ _ h => h
  | createArray element dimensions initializer ihd ihi =>
    cases initializer with
    | none => exact (pairs_resolveAll ihd).map fun _ _ h => h
    | some elements => exact (pairs_resolveAll (ihi elements rfl)).map fun _ _ h => h
  | anonymous cls args ih =>
    have hmembers (codes codes' : List ExprCode)
        (h : List.Forall₂ Visit.SameUse (Expr.allVisits codes) (Expr.allVisits codes')) :
        Pairs (do
          let members ← outside (view cls).members
          return Expr.anonymous ⟨(view cls).interface, (view cls).superclass, members⟩ codes) (do
          let members ← outside (view' cls).members
          return Expr.anonymous ⟨(view' cls).interface, (view' cls).superclass, members⟩ codes')
          Expr.SameUses := (Pairs.trivial _ _).map fun _ _ _ => h
    rw [Expr.resolve, Expr.resolve]
    change Pairs (if (view cls).interface.isSome then _ else _)
      (if (view' cls).interface.isSome then _ else _) _
    rw [hview cls]
    split
    · exact hmembers [] [] .nil
    · exact (pairs_resolveAll ih).bind hmembers

theorem pairs_stmt
    (hview : ∀ cls, (view' cls).interface.isSome = (view cls).interface.isSome)
    (hcompound : ∀ op, (s.target.compoundToken? op).isNone = true →
      (s'.target.compoundToken? op).isNone = true)
    (stmt : Stmt VariableId κ) :
    Pairs (stmt.resolve (s.context view b)) (stmt.resolve (s'.context view' b))
      fun code code' => Restates code.visits code'.visits := by
  have hexpr (e : Expr VariableId κ) :
      Pairs (e.resolve (s.context view b)) (e.resolve (s'.context view' b)) Expr.SameUses :=
    pairs_expr hview e
  cases stmt with
  | eval e =>
    have heval : Pairs (do return StmtCode.plain (.eval (← e.resolve (s.context view b))))
        (do return StmtCode.plain (.eval (← e.resolve (s'.context view' b))))
        fun code code' => Restates code.visits code'.visits :=
      (hexpr e).map fun _ _ h => .same h
    cases e with
    | compound op target amount =>
      have hsame := hexpr target
      rw [Stmt.resolve, Stmt.resolve]
      change Pairs (if ((s.target.compoundToken? op).isNone && _) = true then _ else _)
        (if ((s'.target.compoundToken? op).isNone && _) = true then _ else _) _
      split
      · next h =>
        obtain ⟨htoken, hpure⟩ := Bool.and_eq_true_iff.mp h
        rw [if_pos (Bool.and_eq_true_iff.mpr ⟨hcompound op htoken, hpure⟩)]
        exact hsame.bind fun _ _ ht => hsame.bind fun _ _ hu => (hexpr amount).map fun _ _ ha =>
          .same (List.rel_append (List.rel_append ht hu) ha)
      · split
        · intro code code' hcode hcode'
          obtain ⟨_, heval, rfl⟩ := hcode.map
          rw [Expr.resolve] at heval
          split at heval
          · obtain ⟨_, ⟨_, _, hthrow⟩, _⟩ := heval.bind
            cases hthrow
          · obtain ⟨t, ht, heval⟩ := heval.bind
            obtain ⟨a, ha, rfl⟩ := heval.map
            obtain ⟨t', ht', hrest⟩ := hcode'.bind
            obtain ⟨u, hu, hrest⟩ := hrest.bind
            obtain ⟨a', ha', rfl⟩ := hrest.map
            exact .again (hsame t t' ht ht') (hsame t u ht hu) (hexpr amount a a' ha ha')
        · exact heval
    | _ => exact heval
  | assign target value =>
    exact (hexpr target).bind fun _ _ ht => (hexpr value).map fun _ _ hv =>
      .same (List.rel_append ht hv)
  | ret value explicit =>
    cases value with
    | none => exact .pure (.same .nil)
    | some e => exact (hexpr e).map fun _ _ h => .same h
  | throw e => exact (hexpr e).map fun _ _ h => .same h

end Resolve

end Unparse
