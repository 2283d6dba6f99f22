import Unparse.Print.Class
import Unparse.Proofs.Walk.Unfold

/-! # Declarations of local variables

Any number of things are printed within one scope, one after another, and some
of them may fail. In the history of all of them a local variable is written
with its type by the first visit that concerns it, and by no later one.
-/

namespace Unparse

open Layout (Doc)
open Layout.Doc (text)
open Walking

/-- Something to print within the scope of a body. -/
inductive Request (κ : Type) where
  | parameters (m : MethodDecl κ)
  | binding (id : VariableId) (site : BindingSite)
  | expression (e : Expr VariableId κ)
  | statement (stmt : Stmt VariableId κ)
  | chain (head : Option ConstructionId) (sameLine : Bool)

variable {κ : Type} {s : Style} {view : κ → ClassText} {b : Body κ}

namespace Request

variable (s view b) in
def print : Request κ → Walking Doc
  | parameters m => MethodDecl.parametersDoc s view { m with body := b }
  | binding id site => do
    let v ← (s.context view b).bind id
    return text (s.target.declaration site v.name v.type)
  | expression e => do return (← e.resolve (s.context view b)).doc s
  | statement stmt => do return (← stmt.resolve (s.context view b)).doc s
  | chain head sameLine => do return Code.doc s sameLine (← (s.context view b).unfold head)

variable (s) in
/-- The document of a request is that of code with the given visits. -/
inductive Writes : Request κ → Doc → List Visit → Prop where
  | parameters {m : MethodDecl κ} (vs : List Occurrence) :
    Writes (parameters m)
      (s.list (List.zipWith (fun (p, i) v =>
        m.parameterDoc s p.annotations (i + 1 == m.parameters.length) v)
        m.parameters.zipIdx vs)).parens
      (vs.map .bind)
  | binding {id : VariableId} {site : BindingSite} (v : Occurrence) :
    Writes (binding id site) (text (s.target.declaration site v.name v.type)) [.bind v]
  | expression {e : Expr VariableId κ} (code : ExprCode) :
    Writes (expression e) (code.doc s) code.visits
  | statement {stmt : Stmt VariableId κ} (code : StmtCode) :
    Writes (statement stmt) (code.doc s) code.visits
  | chain {head : Option ConstructionId} {sameLine : Bool} (code : Code) :
    Writes (chain head sameLine) (code.doc s sameLine) (codeVisits s.target code)

end Request

theorem mapM_zipWith {α β γ : Type} {f : α → Walking β} {g : α → β → γ} (as : List α) :
    (as.mapM fun a => do return g a (← f a)) = do return List.zipWith g as (← as.mapM f) := by
  induction as with
  | nil => simp
  | cons a as ih =>
    rw [List.mapM_cons, List.mapM_cons, ih]
    simp only [bind_assoc, pure_bind, List.zipWith_cons_cons]

theorem resolves_parametersDoc {A : κ → Prop} {m : MethodDecl κ} :
    Resolves (s.context view b) A (MethodDecl.parametersDoc s view { m with body := b })
      fun d vs => (Request.parameters m).Writes s d vs := by
  have hdocs : MethodDecl.parametersDoc s view { m with body := b } = do
      let vs ← m.parameters.zipIdx.mapM fun p => (s.context view b).bind p.1.variableId
      return (s.list (List.zipWith (fun (p, i) v =>
        m.parameterDoc s p.annotations (i + 1 == m.parameters.length) v)
        m.parameters.zipIdx vs)).parens := by
    have hzip := mapM_zipWith (f := fun p => (s.context view b).bind p.1.variableId)
      (g := fun (p, i) v => m.parameterDoc s p.annotations (i + 1 == m.parameters.length) v)
      m.parameters.zipIdx
    have hlist := congrArg (· >>= fun docs => pure (s.list docs).parens) hzip
    simp only [bind_assoc, pure_bind] at hlist
    exact hlist
  rw [hdocs]
  refine (Resolves.mapM (V := fun v => [Visit.bind v]) fun p _ => resolves_bind _).bind
    fun vs us hus => .pure ?_
  rw [List.append_nil, hus, ← List.map_eq_flatMap]
  exact .parameters vs

/-- A request makes the visits of what it writes. One that fails has made some
visits, too. -/
theorem meets_print (s : Style) (view : κ → ClassText) {sc : Scope} (hs : sc.Consistent b)
    (r : Request κ) :
    Meets sc (r.print s view b)
      (fun d sc' => ∃ vs, Path b sc vs sc' ∧ r.Writes s d (variableVisits vs))
      (fun _ sc' => ∃ vs, Path b sc vs sc') := by
  have hresolves {w : Walking Doc}
      (hw : Resolves (s.context view b) (fun _ => True) w fun d vs => r.Writes s d vs) :
      Meets sc w (fun d sc' => ∃ vs, Path b sc vs sc' ∧ r.Writes s d (variableVisits vs))
        (fun _ sc' => ∃ vs, Path b sc vs sc') := by
    refine (hw sc).mono ?_ ?_
    · rintro d sc' ⟨vs, hvs, hpath, hd⟩
      exact ⟨vs, hpath, by rwa [variableVisits_eq_self hvs]⟩
    · rintro e sc' ⟨vs, -, hpath, -⟩
      exact ⟨vs, hpath⟩
  cases r with
  | parameters m => exact hresolves resolves_parametersDoc
  | binding id site =>
    refine hresolves ((resolves_bind id).bind fun v vs hvs => .pure ?_)
    rw [hvs]
    exact .binding v
  | expression e =>
    refine hresolves ((resolves_expr fun _ _ => trivial).bind fun code vs hvs => .pure ?_)
    rw [hvs, List.append_nil]
    exact .expression code
  | statement stmt =>
    refine hresolves ((resolves_stmt fun _ _ => trivial).bind fun code vs hvs => .pure ?_)
    rw [hvs, List.append_nil]
    exact .statement code
  | chain head sameLine =>
    have hwalks := (walks_unfold (c := s.context view b) (R := fun _ => True)
      (fun _ _ _ _ => trivial) head fun _ _ => trivial).map (g := Code.doc s sameLine)
      (Q := fun d vs => (Request.chain head sameLine : Request κ).Writes s d vs)
      fun code vs hvs => by
        rw [hvs]
        exact .chain code
    refine (hwalks sc hs (KeySet.missing_le_size _ _)).mono ?_ ?_
    · rintro d sc' ⟨vs, hpath, -, hd⟩
      exact ⟨vs, hpath, hd⟩
    · rintro e sc' ⟨vs, hpath, -⟩
      exact ⟨vs, hpath⟩

variable (s view b) in
def printAll : List (Request κ) → Scope → List (Request κ × Except PrintError Doc) × Scope
  | [], sc => ([], sc)
  | r :: rs, sc =>
    let (result, sc) := (r.print s view b).run.run sc
    let (results, sc) := printAll rs sc
    ((r, result) :: results, sc)

theorem path_printAll (s : Style) (view : κ → ClassText) (rs : List (Request κ)) {sc : Scope}
    (hs : sc.Consistent b) :
    ∃ visits : List (List Visit), Path b sc visits.flatten (printAll s view b rs sc).2 ∧
      List.Forall₂ (fun (r, result) vs => ∀ d, result = .ok d → r.Writes s d (variableVisits vs))
        (printAll s view b rs sc).1 visits := by
  induction rs generalizing sc with
  | nil => exact ⟨[], .refl sc, .nil⟩
  | cons r rs ih =>
    have hmeets := meets_print s view hs r
    rcases hrun : (r.print s view b).run.run sc with ⟨result, sc'⟩
    obtain ⟨vs, hpath, hwrites⟩ : ∃ vs, Path b sc vs sc' ∧
        ∀ d, result = .ok d → r.Writes s d (variableVisits vs) := by
      cases result with
      | ok d =>
        obtain ⟨vs, hpath, hd⟩ := hmeets.result hrun
        refine ⟨vs, hpath, ?_⟩
        rintro _ ⟨⟩
        exact hd
      | error e =>
        obtain ⟨vs, hpath⟩ := hmeets.failure hrun
        exact ⟨vs, hpath, nofun⟩
    obtain ⟨visits, hpaths, hall⟩ := ih (hpath.consistent hs)
    simp only [printAll, hrun]
    exact ⟨vs :: visits, hpath.append hpaths, .cons hwrites hall⟩

theorem Takes.declares_iff {sc sc' : Scope} {v : Occurrence} (hs : sc.Consistent b)
    (h : Takes b sc (.use v) sc') :
    ∃ x, b.vars.get? v.id = some x ∧ v.name = x.name ∧ v.type = x.type ∧
      (v.declares = true ↔ x.kind = .localVar ∧ ∀ y ∈ sc.history, ¬ y.Concerns v.id) := by
  cases h with
  | @useLocal id x hx hk =>
    refine ⟨x, hx, rfl, rfl, ?_⟩
    have hdeclared := hs.declared hx hk
    simp only [KeySet.insert_fst_of_live _ hx, Bool.not_eq_true', hk, true_and]
    rw [← Bool.not_eq_true, hdeclared]
    simp only [not_exists, not_and]
  | @useOther id x hx hk =>
    refine ⟨x, hx, rfl, rfl, ?_⟩
    simp [hk]

/-- Whether a visit declares a variable in an expression. -/
def Visit.declares (id : VariableId) : Visit → Bool
  | use v => v.id == id && v.declares
  | _ => false

theorem Visit.concerns_of_declares {id : VariableId} {x : Visit} (h : x.declares id = true) :
    x.Concerns id := by
  cases x with
  | use v =>
    simp only [declares, Bool.and_eq_true, beq_iff_eq] at h
    exact h.1
  | bind v => cases h
  | enter id => cases h

theorem countP_le_one {α : Type} {p : α → Bool} {l : List α}
    (h : ∀ before x after, l = before ++ x :: after → p x = true → ∀ y ∈ before, p y = false) :
    l.countP p ≤ 1 := by
  induction l using List.reverseRecOn with
  | nil => simp
  | append_singleton l x ih =>
    rw [List.countP_append, List.countP_singleton]
    split
    · next hx =>
      have hnone : l.countP p = 0 := List.countP_eq_zero.mpr fun y hy => by
        simp [h l x [] rfl hx y hy]
      omega
    · refine ih fun before y after hsplit hy => ?_
      exact h before y (after ++ [x]) (by simp [hsplit]) hy

/-- Whatever is printed in a fresh scope, a variable in an expression is written
with its type if it is a local one that no visit before concerned, and by its
name alone otherwise. So no variable is declared by two expressions. -/
theorem declared_at_first_visit (s : Style) (view : κ → ClassText) (b : Body κ)
    (rs : List (Request κ)) (events : List Event) :
    ∃ visits : List (List Visit), visits.flatten = (printAll s view b rs { events }).2.history ∧
      List.Forall₂ (fun (r, result) vs => ∀ d, result = .ok d → r.Writes s d (variableVisits vs))
        (printAll s view b rs { events }).1 visits ∧
      (∀ before v after, visits.flatten = before ++ .use v :: after →
        ∃ x, b.vars.get? v.id = some x ∧
          (v.declares = true ↔ x.kind = .localVar ∧ ∀ y ∈ before, ¬ y.Concerns v.id) ∧
          (Expr.var v : ExprCode).doc s =
            text (if v.declares then s.target.declaration .firstUse x.name x.type else x.name)) ∧
      ∀ id, visits.flatten.countP (Visit.declares id) ≤ 1 := by
  have hfresh := Scope.consistent_fresh b events
  obtain ⟨visits, hpath, hall⟩ := path_printAll s view rs hfresh
  have hfirst (before : List Visit) (v : Occurrence) (after : List Visit)
      (hsplit : visits.flatten = before ++ .use v :: after) :
      ∃ x, b.vars.get? v.id = some x ∧ v.name = x.name ∧ v.type = x.type ∧
        (v.declares = true ↔ x.kind = .localVar ∧ ∀ y ∈ before, ¬ y.Concerns v.id) := by
    rw [hsplit] at hpath
    obtain ⟨t, t', hbefore, hv, -⟩ := hpath.split
    have hhistory : t.history = before := by simpa using hbefore.history
    rw [← hhistory]
    exact hv.declares_iff (hbefore.consistent hfresh)
  refine ⟨visits, by simpa using hpath.history.symm, hall, ?_, ?_⟩
  · intro before v after hsplit
    obtain ⟨x, hx, hname, htype, hdeclares⟩ := hfirst before v after hsplit
    refine ⟨x, hx, hdeclares, ?_⟩
    rw [Expr.doc, Style.occurrence, hname, htype]
  · intro id
    refine countP_le_one fun before x after hsplit hx y hy => ?_
    cases x with
    | use v =>
      simp only [Visit.declares, Bool.and_eq_true, beq_iff_eq] at hx
      obtain ⟨rfl, hdeclares⟩ := hx
      obtain ⟨x, -, -, -, hiff⟩ := hfirst before v after hsplit
      have hnew := (hiff.mp hdeclares).2 y hy
      exact Bool.eq_false_iff.mpr fun hy => hnew (Visit.concerns_of_declares hy)
    | bind v => cases hx
    | enter id => cases hx

end Unparse
