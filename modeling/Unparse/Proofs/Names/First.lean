import Unparse.Proofs.Names.Regions
import Unparse.Proofs.Names.Written
import Unparse.Proofs.Walk.Declarations

/-! # Declarations in the order of the text

A traversal declares a local variable where it visits it first. The text has the
same order but for the selector of a choice, and the condition of a counted loop
without a header: they are written before what is visited before them.
-/

namespace Unparse

open Walking

/-- Visits that are made one after another, or a branch. -/
inductive Segment where
  | plain (vs : List Visit)
  | branch (code : Code)

@[simp] def Segment.visits (visits : Code → List Visit) : Segment → List Visit
  | plain vs => vs
  | branch code => visits code

/-- The segments of a control structure. The late ones are written before the
rest, and visited after it. -/
structure Spread where
  early : List Segment := []
  late : List Segment := []
  rest : List Segment := []

@[simp] theorem Order.arrange_nil {α : Type} (o : Order) : o.arrange ([] : List α) [] = [] := by
  cases o <;> rfl

def Spread.taken (o : Order) (sp : Spread) : List Segment := sp.early ++ o.arrange sp.late sp.rest

def Form.spread (t : Target) : FormCode → Spread
  | block statements => { early := [.plain (statements.flatMap StmtCode.visits)] }
  | conditional condition whenTrue whenFalse =>
    { early := .plain condition.visits :: .branch whenTrue :: whenFalse.toList.map .branch }
  | whileLoop condition body => { early := [.plain condition.visits, .branch body] }
  | doLoop condition body => { early := [.branch body, .plain condition.visits] }
  | countedLoop init condition update body =>
    let inits := Segment.plain (init.toList.flatMap StmtCode.visits)
    let updates := Segment.plain (update.toList.flatMap StmtCode.visits)
    if t.lexicon.countedLoops then
      { early := [inits, .plain condition.visits, updates, .branch body] }
    else
      { early := [inits], late := [.plain condition.visits], rest := [.branch body, updates] }
  | forEach vars container body =>
    { early := [.plain (vars.map Visit.bind ++ container.visits), .branch body] }
  | guarded body handlers cleanup =>
    { early := .branch body ::
        handlers.flatMap (fun h => [.plain [.bind h.1], .branch h.2]) ++
          cleanup.toList.map .branch }
  | switch selector cases =>
    { late := [.plain selector.visits], rest := cases.map fun case => .branch case.2 }
  | select selector arms fallback =>
    { late := [.plain selector.visits]
      rest := arms.flatMap (fun arm => [.plain arm.1.visits, .branch arm.2]) ++
        fallback.toList.map .branch }

/-- The visits of a chain in an order of its parts. -/
abbrev visitsIn (t : Target) (o : Order) (code : Code) : List Visit :=
  Region.allVisits (codeRegions t o code)

section Spread

variable (t : Target) (o : Order)

@[simp] theorem visitsIn_nil : visitsIn t o [] = [] := rfl

@[simp] theorem visitsIn_cons (e : Element) (es : Code) :
    visitsIn t o (e :: es) = Region.allVisits (e.regions t o) ++ visitsIn t o es := by
  rw [visitsIn, codeRegions, Region.allVisits_append]

theorem visits_handlersRegions (handlers : List (Occurrence × Code)) :
    Region.allVisits (handlersRegions t o handlers) =
      handlers.flatMap fun h => .bind h.1 :: visitsIn t o h.2 := by
  induction handlers with
  | nil => rfl
  | cons h handlers ih => simp [handlersRegions, Region.allVisits, Region.visits, ih]

theorem visits_casesRegions (cases : List (List (Option Literal) × Code)) :
    Region.allVisits (casesRegions t o cases) = cases.flatMap fun c => visitsIn t o c.2 := by
  induction cases with
  | nil => rfl
  | cons c cases ih => simp [casesRegions, ih]

theorem visits_armsRegions (arms : List (ExprCode × Code)) :
    Region.allVisits (armsRegions t o arms) =
      arms.flatMap fun a => a.1.visits ++ visitsIn t o a.2 := by
  induction arms with
  | nil => rfl
  | cons a arms ih => simp [armsRegions, Region.allVisits, Region.visits, ih]

theorem visits_branchRegions (code : Option Code) :
    Region.allVisits (branchRegions t o code) = code.toList.flatMap (visitsIn t o) := by
  cases code <;> simp [branchRegions, Region.allVisits, Region.visits]

theorem visits_elseRegions (code : Option Code) :
    Region.allVisits (elseRegions t o code) = code.toList.flatMap (visitsIn t o) := by
  rcases code with _ | ⟨_ | ⟨e, _ | ⟨f, es⟩⟩⟩
  · rfl
  · rfl
  · simp [elseRegions, Region.allVisits, Region.visits]
  · rw [elseRegions]
    split
    · next h =>
      have hform := e.form_of_isEmptyBlock (Bool.and_eq_true_iff.mp h).1
      obtain ⟨form, place⟩ := e
      obtain rfl : form = .block [] := hform
      simp [Element.regions, formRegions, Region.allVisits]
    · simp [Region.allVisits, Region.visits]

theorem visits_formRegions (form : FormCode) :
    Region.allVisits (formRegions t o form) =
      ((form.spread t).taken o).flatMap (Segment.visits (visitsIn t o)) := by
  cases form with
  | conditional condition whenTrue whenFalse =>
    simp [formRegions, Form.spread, Spread.taken, Region.allVisits, Region.visits,
      visits_elseRegions, List.flatMap_map]
  | countedLoop init condition update body =>
    rw [formRegions, Form.spread]
    split
    · simp [Spread.taken, Region.allVisits, Region.visits]
    · cases o <;> simp [Spread.taken, Order.arrange, Region.allVisits, Region.visits]
  | forEach vars container body =>
    simp [formRegions, Form.spread, Spread.taken, Region.allVisits, Region.visits, -List.map_map]
  | guarded body handlers cleanup =>
    simp [formRegions, Form.spread, Spread.taken, Region.allVisits, Region.visits,
      visits_handlersRegions, visits_branchRegions, List.flatMap_map, List.flatMap_assoc]
  | switch selector cases =>
    cases o <;> simp [formRegions, Form.spread, Spread.taken, Order.arrange, Region.allVisits,
      Region.visits, visits_casesRegions, List.flatMap_map]
  | select selector arms fallback =>
    cases o <;> simp [formRegions, Form.spread, Spread.taken, Order.arrange, Region.allVisits,
      Region.visits, visits_armsRegions, visits_branchRegions, List.flatMap_map, List.flatMap_assoc]
  | _ => simp [formRegions, Form.spread, Spread.taken, Region.allVisits, Region.visits]

/-- The visits of a traversal are those of the segments as they are walked. -/
theorem formVisits_eq_spread (form : FormCode) :
    formVisits t form =
      ((form.spread t).taken .walked).flatMap (Segment.visits (codeVisits t)) := by
  cases form with
  | countedLoop init condition update body =>
    rw [formVisits, Form.spread]
    split <;> simp [Spread.taken, Order.arrange]
  | _ =>
    simp [formVisits, Form.spread, Spread.taken, Order.arrange, branchVisits_eq_flatMap,
      handlerVisits_eq_flatMap, caseVisits_eq_flatMap, armVisits_eq_flatMap, List.flatMap_map,
      List.flatMap_assoc]

theorem branch_mem_taken {form : FormCode} {code : Code} :
    .branch code ∈ (form.spread t).taken o ↔ code ∈ form.branches := by
  cases form with
  | countedLoop init condition update body =>
    rw [Form.spread, Form.branches]
    split
    · simp [Spread.taken]
    · cases o <;> simp [Spread.taken, Order.arrange]
  | _ =>
    cases o <;> simp [Form.spread, Form.branches, Spread.taken, Order.arrange, eq_comm]

theorem visitsIn_walked (code : Code) : visitsIn t .walked code = codeVisits t code := by
  induction code using Code.induct with
  | nil => rfl
  | cons form place es ihform ihes =>
    rw [visitsIn_cons, Element.regions, visits_formRegions, codeVisits, Element.visits, ihes,
      formVisits_eq_spread]
    congr 1
    refine List.flatMap_congr fun segment hsegment => ?_
    cases segment with
    | plain vs => rfl
    | branch code => exact ihform code (branch_mem_taken t .walked |>.mp hsegment)

theorem visitsIn_perm (code : Code) : (visitsIn t .written code).Perm (codeVisits t code) := by
  induction code using Code.induct with
  | nil => exact .nil
  | cons form place es ihform ihes =>
    rw [visitsIn_cons, Element.regions, visits_formRegions, codeVisits, Element.visits,
      formVisits_eq_spread]
    refine List.Perm.append ?_ ihes
    have horder : ((form.spread t).taken .written).Perm ((form.spread t).taken .walked) :=
      List.perm_append_comm.append_left _
    refine (List.Perm.flatMap_left _ fun segment hsegment => ?_).trans (horder.flatMap_right _)
    cases segment with
    | plain vs => rfl
    | branch code => exact ihform code (branch_mem_taken t .written |>.mp hsegment)

end Spread

def Visit.Bare (id : VariableId) : Visit → Prop
  | use v => v.id = id ∧ v.declares = false
  | _ => False

def Visit.Precedes (x y : Visit) : Prop := ∀ id, y.declares id = true → ¬ x.Bare id

/-- No variable stands by its name alone before the expression that declares it. -/
def DeclaredFirst (vs : List Visit) : Prop := vs.Pairwise Visit.Precedes

/-- Nothing among the later visits declares a variable that the earlier ones name. -/
def Apart (earlier later : List Visit) : Prop := ∀ x ∈ earlier, ∀ y ∈ later, x.Precedes y

/-- What is written before the rest, and visited after it, does not name what the
rest declares. -/
def Form.Apart (t : Target) : FormCode → Prop
  | switch selector cases => Unparse.Apart selector.visits (caseVisits t cases)
  | select selector arms fallback =>
    Unparse.Apart selector.visits (armVisits t arms ++ branchVisits t fallback)
  | countedLoop _ condition update body =>
    t.lexicon.countedLoops = true ∨
      Unparse.Apart condition.visits (codeVisits t body ++ update.toList.flatMap StmtCode.visits)
  | _ => True

section First

variable {t : Target}

theorem Form.apart_iff {form : FormCode} :
    form.Apart t ↔ Unparse.Apart ((form.spread t).late.flatMap (Segment.visits (codeVisits t)))
      ((form.spread t).rest.flatMap (Segment.visits (codeVisits t))) := by
  cases form with
  | countedLoop init condition update body =>
    cases h : t.lexicon.countedLoops <;> simp [Apart, spread, h, Unparse.Apart]
  | switch selector cases =>
    simp [Apart, spread, caseVisits_eq_flatMap, List.flatMap_map]
  | select selector arms fallback =>
    simp [Apart, spread, armVisits_eq_flatMap, branchVisits_eq_flatMap, List.flatMap_map,
      List.flatMap_assoc]
  | _ => simp [Apart, spread, Unparse.Apart]

/-- Segments that are apart from each other as they are walked are so as they are
written, save for the late ones and the rest. -/
theorem Spread.pairwise_written {sp : Spread} {f g : Segment → List Visit}
    (hmem : ∀ segment x, x ∈ f segment ↔ x ∈ g segment)
    (h : DeclaredFirst ((sp.taken .walked).flatMap g)) :
    DeclaredFirst ((sp.taken .written).flatMap f) ↔
      (∀ segment ∈ sp.taken .written, DeclaredFirst (f segment)) ∧
        Apart (sp.late.flatMap g) (sp.rest.flatMap g) := by
  have hbefore (a b : Segment) : (∀ x ∈ f a, ∀ y ∈ f b, x.Precedes y) ↔
      ∀ x ∈ g a, ∀ y ∈ g b, x.Precedes y := by
    simp only [hmem]
  have hlate : Apart (sp.late.flatMap g) (sp.rest.flatMap g) ↔
      ∀ a ∈ sp.late, ∀ b ∈ sp.rest, ∀ x ∈ g a, ∀ y ∈ g b, x.Precedes y := by
    simp only [Apart, List.mem_flatMap]
    constructor
    · intro h a ha b hb x hx y hy
      exact h x ⟨a, ha, hx⟩ y ⟨b, hb, hy⟩
    · rintro h x ⟨a, ha, hx⟩ y ⟨b, hb, hy⟩
      exact h a ha b hb x hx y hy
  rw [DeclaredFirst, taken, Order.arrange, List.pairwise_flatMap, List.pairwise_append,
    List.pairwise_append] at h
  obtain ⟨-, hearly, ⟨hrest, hlast, -⟩, hcross⟩ := h
  rw [DeclaredFirst, List.pairwise_flatMap, hlate]
  refine and_congr_right fun _ => ?_
  simp only [hbefore]
  rw [taken, Order.arrange, List.pairwise_append, List.pairwise_append]
  constructor
  · rintro ⟨-, ⟨-, -, h⟩, -⟩
    exact h
  · intro h
    refine ⟨hearly, ⟨hlast, hrest, h⟩, fun a ha b hb => hcross a ha b ?_⟩
    rw [List.mem_append] at hb ⊢
    exact hb.symm

/-- If declarations come first as a chain is walked, they do so as it is written if
and only if nothing in it that is visited late names what was declared before. -/
theorem declaredFirst_written {code : Code} (h : DeclaredFirst (codeVisits t code)) :
    DeclaredFirst (visitsIn t .written code) ↔ ∀ e : Element, e.Occurs code → e.form.Apart t := by
  induction code using Code.induct with
  | nil => simp [DeclaredFirst]
  | cons form place es ihform ihes =>
    rw [codeVisits, Element.visits, DeclaredFirst, List.pairwise_append] at h
    obtain ⟨hform, hes, hcross⟩ := h
    rw [formVisits_eq_spread] at hform
    have hmem (segment : Segment) (x : Visit) :
        x ∈ segment.visits (visitsIn t .written) ↔ x ∈ segment.visits (codeVisits t) := by
      cases segment with
      | plain vs => rfl
      | branch code => exact (visitsIn_perm t code).mem_iff
    have hsegments : (∀ segment ∈ (form.spread t).taken .written,
          DeclaredFirst (segment.visits (visitsIn t .written))) ↔
        ∀ code ∈ form.branches, ∀ e : Element, e.Occurs code → e.form.Apart t := by
      have hwalked := (List.pairwise_flatMap.mp hform).1
      have hbranch {code : Code} (hcode : code ∈ form.branches) :=
        ihform code hcode (hwalked _ ((branch_mem_taken t .walked).mpr hcode))
      constructor
      · intro hall code hcode
        exact (hbranch hcode).mp (hall _ ((branch_mem_taken t .written).mpr hcode))
      · intro hall segment hsegment
        cases segment with
        | plain vs =>
          refine hwalked (.plain vs) ?_
          simp only [Spread.taken, Order.arrange, List.mem_append] at hsegment ⊢
          rwa [or_comm (a := _ ∈ (form.spread t).rest)]
        | branch code =>
          have hcode := (branch_mem_taken t .written).mp hsegment
          exact (hbranch hcode).mpr (hall code hcode)
    have hwritten := Spread.pairwise_written hmem hform
    rw [hsegments, ← Form.apart_iff] at hwritten
    have hcrossed : ∀ x ∈ Region.allVisits (formRegions t .written form),
        ∀ y ∈ visitsIn t .written es, x.Precedes y := by
      intro x hx y hy
      have hx' : x ∈ visitsIn t .written [.mk form place] := by simpa [Element.regions] using hx
      refine hcross x ?_ y ((visitsIn_perm t es).mem_iff.mp hy)
      simpa [codeVisits, Element.visits] using (visitsIn_perm t _).mem_iff.mp hx'
    rw [visits_formRegions] at hcrossed
    rw [Element.forall_occurs_cons, visitsIn_cons, Element.regions, DeclaredFirst,
      List.pairwise_append, visits_formRegions, and_iff_left hcrossed]
    exact (and_congr hwritten (ihes hes)).trans (and_assoc.trans and_left_comm)

end First

section Runs

variable {κ : Type} {b : Body κ} {sc sc' : Scope} {vs : List Visit}

/-- A variable in an expression is declared if it is a local one that no visit
before concerned. -/
def Declaring (b : Body κ) (vs : List Visit) : Prop :=
  ∀ before v after, vs = before ++ .use v :: after →
    ∃ x, b.vars.get? v.id = some x ∧
      (v.declares = true ↔ x.kind = .localVar ∧ ∀ y ∈ before, ¬ y.Concerns v.id)

theorem Path.declaring {events : List Event} (h : Path b { events } vs sc') : Declaring b vs := by
  rintro before v after rfl
  obtain ⟨t, t', hbefore, htakes, -⟩ := h.split
  have hconsistent := hbefore.consistent (Scope.consistent_fresh b events)
  obtain ⟨x, hx, -, -, hiff⟩ := htakes.declares_iff hconsistent
  have hhistory : t.history = before := by simpa using hbefore.history
  rw [hhistory] at hiff
  exact ⟨x, hx, hiff⟩

theorem Declaring.variables (h : Declaring b vs) : Declaring b (variableVisits vs) := by
  intro before v after hsplit
  obtain ⟨before, rest, rfl, rfl, hrest⟩ := List.filter_eq_append_iff.mp hsplit
  obtain ⟨between, after, rfl, hbetween, -, -⟩ := List.filter_eq_cons_iff.mp hrest
  obtain ⟨x, hx, hiff⟩ := h (before ++ between) v after (by simp)
  refine ⟨x, hx, hiff.trans (and_congr_right fun _ => ?_)⟩
  constructor
  · intro hnone y hy
    exact hnone y (List.mem_append_left _ (List.mem_of_mem_filter hy))
  · intro hnone y hy hconcerns
    have hentered : y.entered?.isNone = true := by
      cases y with
      | use v => rfl
      | bind v => rfl
      | enter id => exact hconcerns.elim
    rcases List.mem_append.mp hy with hy | hy
    · exact hnone y (List.mem_filter.mpr ⟨hy, hentered⟩) hconcerns
    · exact hbetween y hy hentered

theorem Visit.Bare.concerns {id : VariableId} {x : Visit} (h : x.Bare id) : x.Concerns id := by
  cases x with
  | use v => exact h.1
  | bind v => exact h.elim
  | enter id => exact h.elim

theorem Declaring.declaredFirst (h : Declaring b vs) : DeclaredFirst vs := by
  induction vs using List.reverseRecOn with
  | nil => exact .nil
  | append_singleton vs y ih =>
    refine List.pairwise_append.mpr ⟨ih ?_, List.pairwise_singleton _ y, ?_⟩
    · intro before v after hsplit
      exact h before v (after ++ [y]) (by simp [hsplit])
    · intro x hx z hz id hdeclares hbare
      obtain rfl := List.mem_singleton.mp hz
      cases z with
      | use v =>
        simp only [Visit.declares, Bool.and_eq_true, beq_iff_eq] at hdeclares
        obtain ⟨rfl, hdeclares⟩ := hdeclares
        obtain ⟨_, -, hiff⟩ := h vs v [] rfl
        exact (hiff.mp hdeclares).2 x hx hbare.concerns
      | bind v => cases hdeclares
      | enter id => cases hdeclares

theorem declaring_of_unfold {s : Style} {view : κ → ClassText} {head : Option ConstructionId}
    {events : List Event} {code : Code}
    (h : ((s.context view b).unfold head).run.run { events } = (.ok code, sc')) :
    variableVisits sc'.history = codeVisits s.target code ∧
      Declaring b (codeVisits s.target code) := by
  obtain ⟨vs, hpath, -, (hcode : variableVisits vs = codeVisits s.target code)⟩ := (walks_unfold
    (c := s.context view b) (R := fun _ => True) (fun _ _ _ _ => trivial) head (fun _ _ => trivial)
    { events } (Scope.consistent_fresh b events) (KeySet.missing_le_size _ _)).result h
  have hhistory : sc'.history = vs := hpath.history
  rw [hhistory, ← hcode]
  exact ⟨rfl, hpath.declaring.variables⟩

/-- The text of a chain that is unfolded in a fresh scope names the variables that
were visited. In it every variable is declared before it stands by its name alone,
if and only if no choice or counted loop names in its selector or condition what its
branches declare. -/
theorem declared_first_iff (s : Style) (view : κ → ClassText) (b : Body κ)
    (head : Option ConstructionId) (sameLine : Bool) {events : List Event} {code : Code}
    (h : ((s.context view b).unfold head).run.run { events } = (.ok code, sc')) :
    Token.allLeaves s (Code.tokens s sameLine code) = (Code.doc s sameLine code).leaves ∧
      (Token.visits (Code.tokens s sameLine code)).Perm (variableVisits sc'.history) ∧
      (DeclaredFirst (Token.visits (Code.tokens s sameLine code)) ↔
        ∀ e : Element, e.Occurs code → e.form.Apart s.target) := by
  have hspell := spell_codeTokens (s := s) h sameLine
  have hvisits : Token.visits (Code.tokens s sameLine code) = visitsIn s.target .written code :=
    hspell.visits.trans (Code.reads_parts s sameLine code).visitsOf_eq
  obtain ⟨hhistory, hdeclaring⟩ := declaring_of_unfold h
  refine ⟨hspell.leaves, ?_, ?_⟩
  · rw [hvisits, hhistory]
    exact visitsIn_perm s.target code
  · rw [hvisits]
    exact declaredFirst_written hdeclaring.declaredFirst

def choosing (selector : Expr VariableId Empty) : Body Empty where
  vars := ⟨[⟨1, some ⟨"x", "int", .localVar⟩⟩], []⟩
  constructions := ⟨[
    ⟨1, some { form := .switch selector [([some (.int 1)], ⟨2, 1⟩)] }⟩,
    ⟨1, some { form := .block [.assign (.var ⟨1, 1⟩) (.const (.int 2))] }⟩], []⟩
  entry := some ⟨1, 1⟩

theorem declared_first_iff_choosing :
    let b := choosing (.const (.int 1))
    let s : Style := { target := .java }
    ∃ code sc', ((s.context Empty.elim b).unfold b.entry).run.run {} = (.ok code, sc') ∧
      DeclaredFirst (Token.visits (Code.tokens s false code)) := by
  intro b s
  obtain ⟨code, sc', hrun⟩ : ∃ code sc',
      ((s.context Empty.elim b).unfold b.entry).run.run {} = (.ok code, sc') := ⟨_, _, rfl⟩
  refine ⟨code, sc', hrun, ?_⟩
  refine (declared_first_iff s Empty.elim b b.entry false hrun).2.2.mpr ?_
  -- No construction has anything late but the choice, which names nothing there.
  have hapart : ∀ e : Element, e.Occurs code → e.form.Apart .java := by
    cases hrun
    simp [Element.forall_occurs_cons, Element.form, Form.branches, Form.Apart, Apart, Expr.visits]
  exact hapart

/-- The selector of a choice stands by its name before the case that declares it. -/
theorem exists_declared_late :
    ∃ (s : Style) (b : Body Empty) (code : Code) (sc' : Scope),
      ((s.context Empty.elim b).unfold b.entry).run.run {} = (.ok code, sc') ∧
        ¬ DeclaredFirst (Token.visits (Code.tokens s false code)) := by
  refine ⟨{ target := .java }, choosing (.var ⟨1, 1⟩), _, _, rfl, fun h => ?_⟩
  have hfirst := (List.pairwise_cons.mp h).1 _ (List.mem_singleton_self _)
  exact hfirst ⟨1, 1⟩ rfl ⟨rfl, rfl⟩

end Runs

end Unparse
