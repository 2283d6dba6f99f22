import Unparse.Proofs.Names.First

/-! # Variables and the blocks of a text

A local variable is declared by the expression that visits it first, wherever that
expression stands. Its name is in scope in the innermost block around it. So it is in
scope wherever it is used, unless a block has its first use and it is used again when
the block has been left.
-/

namespace Unparse

open Region (allVisits visit block)

/-- A block in a text, with the visits before it and after it. -/
inductive Inside : List Region → List Visit → List Region → List Visit → Prop where
  | child (rs inner rs' : List Region) :
    Inside (rs ++ block inner :: rs') (allVisits rs) inner (allVisits rs')
  | deeper (rs rs' : List Region) {inner found : List Region} {before after : List Visit}
    (h : Inside inner before found after) :
    Inside (rs ++ block inner :: rs') (allVisits rs ++ before) found (after ++ allVisits rs')

/-- A variable that is declared directly in a block stands by its name alone nowhere
outside of the block. -/
def InScope (rs : List Region) : Prop :=
  ∀ before inner after, Inside rs before inner after →
    ∀ v : Occurrence, visit (.use v) ∈ inner → v.declares = true →
      ∀ x ∈ before ++ after, ¬ x.Bare v.id

theorem Region.mem_allVisits_of_mem {rs : List Region} {x : Visit} (h : visit x ∈ rs) :
    x ∈ allVisits rs := by
  obtain ⟨before, after, rfl⟩ := List.append_of_mem h
  simp [allVisits, visits]

/-- The first visit to a variable is a use in a block. -/
def FirstUsedIn (id : VariableId) (before inner : List Visit) : Prop :=
  (∀ x ∈ before, ¬ x.Concerns id) ∧
    ∃ us v ws, inner = us ++ .use v :: ws ∧ v.id = id ∧ ∀ x ∈ us, ¬ x.Concerns id

/-- A variable whose first visit is a use in a block is not used after that block. -/
def Sheltered (id : VariableId) (rs : List Region) : Prop :=
  ∀ before inner after, Inside rs before inner after → FirstUsedIn id before (allVisits inner) →
    ∀ v : Occurrence, .use v ∈ after → v.id ≠ id

theorem append_eq_append_cons {α : Type} {as bs cs ds : List α} {a : α}
    (h : as ++ bs = cs ++ a :: ds) :
    (∃ es, as = cs ++ a :: es ∧ ds = es ++ bs) ∨ ∃ es, bs = es ++ a :: ds ∧ cs = as ++ es := by
  rcases List.append_eq_append_iff.mp h with ⟨es, hcs, hbs⟩ | ⟨es, has, hds⟩
  · exact .inr ⟨es, hbs, hcs⟩
  · rcases List.cons_eq_append_iff.mp hds with ⟨rfl, rfl⟩ | ⟨es, rfl, rfl⟩
    · exact .inr ⟨[], rfl, by simpa using has.symm⟩
    · exact .inl ⟨es, has, rfl⟩

namespace Inside

variable {rs rs' inner found : List Region} {before after before' after' : List Visit}

theorem allVisits_eq (h : Inside rs before inner after) :
    allVisits rs = before ++ allVisits inner ++ after := by
  induction h with
  | child rs inner rs' => simp [allVisits, Region.visits]
  | deeper rs rs' _ ih => simp [allVisits, Region.visits, ih]

theorem trans (h : Inside rs before inner after) (h' : Inside inner before' found after') :
    Inside rs (before ++ before') found (after' ++ after) := by
  induction h with
  | child rs inner rs' => exact .deeper rs rs' h'
  | deeper rs rs' _ ih =>
    have hdeeper := Inside.deeper rs rs' (ih h')
    simpa using hdeeper

theorem append_left (h : Inside rs before inner after) (qs : List Region) :
    Inside (rs ++ qs) before inner (after ++ allVisits qs) := by
  cases h with
  | child rs inner rs' =>
    simpa using Inside.child rs inner (rs' ++ qs)
  | deeper rs rs' h =>
    simpa using Inside.deeper rs (rs' ++ qs) h

theorem append_right (h : Inside rs before inner after) (qs : List Region) :
    Inside (qs ++ rs) (allVisits qs ++ before) inner after := by
  cases h with
  | child rs inner rs' =>
    simpa using Inside.child (qs ++ rs) inner rs'
  | deeper rs rs' h =>
    simpa using Inside.deeper (qs ++ rs) rs' h

theorem of_append (h : Inside (rs ++ rs') before inner after) :
    (∃ as, Inside rs before inner as ∧ after = as ++ allVisits rs') ∨
      ∃ bs, Inside rs' bs inner after ∧ before = allVisits rs ++ bs := by
  generalize hall : rs ++ rs' = all at h
  cases h with
  | child l inner r =>
    rcases append_eq_append_cons hall with ⟨m, rfl, rfl⟩ | ⟨m, rfl, rfl⟩
    · exact .inl ⟨_, .child l inner m, Region.allVisits_append ..⟩
    · exact .inr ⟨_, .child m inner r, Region.allVisits_append ..⟩
  | deeper l r h =>
    rcases append_eq_append_cons hall with ⟨m, rfl, rfl⟩ | ⟨m, rfl, rfl⟩
    · exact .inl ⟨_, .deeper l m h, by simp⟩
    · exact .inr ⟨_, .deeper m r h, by simp⟩

theorem of_block (h : Inside [block rs] before inner after) :
    (before = [] ∧ inner = rs ∧ after = []) ∨ Inside rs before inner after := by
  generalize hall : [block rs] = all at h
  cases h with
  | child l inner r =>
    rcases List.singleton_eq_append_iff.mp hall with ⟨rfl, h⟩ | ⟨-, h⟩
    · cases h
      exact .inl ⟨rfl, rfl, rfl⟩
    · cases h
  | deeper l r h =>
    rcases List.singleton_eq_append_iff.mp hall with ⟨rfl, h'⟩ | ⟨-, h'⟩
    · cases h'
      exact .inr (by simpa [allVisits] using h)
    · cases h'

theorem not_visit {x : Visit} : ¬ Inside [visit x] before inner after := by
  intro h
  generalize hall : [visit x] = all at h
  cases h <;> rcases List.singleton_eq_append_iff.mp hall with ⟨-, h⟩ | ⟨-, h⟩ <;> cases h

theorem exists_of_mem {x : Visit} : ∀ {rs : List Region}, x ∈ allVisits rs →
    visit x ∈ rs ∨ ∃ before inner after, Inside rs before inner after ∧ visit x ∈ inner
  | [], h => nomatch h
  | visit v :: rs, h => by
    rcases List.mem_cons.mp h with rfl | h
    · exact .inl List.mem_cons_self
    · rcases exists_of_mem h with h | ⟨before, inner, after, hinside, h⟩
      · exact .inl (List.mem_cons_of_mem _ h)
      · exact .inr ⟨_, inner, after, hinside.append_right [visit v], h⟩
  | block found :: rs, h => by
    rw [allVisits, Region.visits, List.mem_append] at h
    rcases h with h | h
    · rcases exists_of_mem h with h | ⟨before, inner, after, hinside, h⟩
      · exact .inr ⟨_, found, _, .child [] found rs, h⟩
      · exact .inr ⟨_, inner, _, .deeper [] rs hinside, h⟩
    · rcases exists_of_mem h with h | ⟨before, inner, after, hinside, h⟩
      · exact .inl (List.mem_cons_of_mem _ h)
      · exact .inr ⟨_, inner, after, hinside.append_right [block found], h⟩

end Inside

/-- The same regions with the same blocks, in another order. -/
inductive Rearranged : List Region → List Region → Prop where
  | refl (rs : List Region) : Rearranged rs rs
  | block {rs rs' : List Region} (h : Rearranged rs rs') : Rearranged [.block rs] [.block rs']
  | append {rs rs' qs qs' : List Region} (h : Rearranged rs rs') (h' : Rearranged qs qs') :
    Rearranged (rs ++ qs) (rs' ++ qs')
  | comm (rs qs : List Region) : Rearranged (rs ++ qs) (qs ++ rs)
  | trans {rs rs' rs'' : List Region} (h : Rearranged rs rs') (h' : Rearranged rs' rs'') :
    Rearranged rs rs''

namespace Rearranged

variable {rs rs' inner : List Region} {before after : List Visit}

theorem symm (h : Rearranged rs rs') : Rearranged rs' rs := by
  induction h with
  | refl rs => exact .refl rs
  | block _ ih => exact .block ih
  | append _ _ ih ih' => exact .append ih ih'
  | comm rs qs => exact .comm qs rs
  | trans _ _ ih ih' => exact .trans ih' ih

theorem perm (h : Rearranged rs rs') : (allVisits rs).Perm (allVisits rs') := by
  induction h with
  | refl rs => exact .refl _
  | block _ ih => simpa [allVisits, Region.visits] using ih
  | append _ _ ih ih' =>
    rw [Region.allVisits_append, Region.allVisits_append]
    exact ih.append ih'
  | comm rs qs =>
    rw [Region.allVisits_append, Region.allVisits_append]
    exact List.perm_append_comm
  | trans _ _ ih ih' => exact ih.trans ih'

theorem visit_mem (h : Rearranged rs rs') {x : Visit} : visit x ∈ rs ↔ visit x ∈ rs' := by
  induction h with
  | refl rs => rfl
  | block _ ih => simp
  | append _ _ ih ih' => simp only [List.mem_append, ih, ih']
  | comm rs qs => simp only [List.mem_append, or_comm]
  | trans _ _ ih ih' => exact ih.trans ih'

theorem inside (h : Rearranged rs rs') (hinside : Inside rs before inner after) :
    ∃ before' inner' after', Inside rs' before' inner' after' ∧ Rearranged inner inner' ∧
      ∀ x, x ∈ before ++ after ↔ x ∈ before' ++ after' := by
  induction h generalizing before inner after with
  | refl rs => exact ⟨before, inner, after, hinside, .refl inner, fun _ => .rfl⟩
  | @block rs rs' h ih =>
    rcases hinside.of_block with ⟨rfl, rfl, rfl⟩ | hinside
    · exact ⟨[], rs', [], .child [] rs' [], h, fun _ => .rfl⟩
    · obtain ⟨before', inner', after', hinside', hinner, hout⟩ := ih hinside
      refine ⟨before', inner', after', ?_, hinner, hout⟩
      simpa [allVisits] using Inside.deeper [] [] hinside'
  | @append rs rs' qs qs' h h' ih ih' =>
    rcases hinside.of_append with ⟨as, hfirst, rfl⟩ | ⟨bs, hsecond, rfl⟩
    · obtain ⟨before', inner', after', hinside', hinner, hout⟩ := ih hfirst
      refine ⟨_, inner', _, hinside'.append_left qs', hinner, fun x => ?_⟩
      have hx := hout x
      simp only [List.mem_append] at hx ⊢
      rw [← or_assoc, hx, h'.perm.mem_iff, or_assoc]
    · obtain ⟨before', inner', after', hinside', hinner, hout⟩ := ih' hsecond
      refine ⟨_, inner', _, hinside'.append_right rs', hinner, fun x => ?_⟩
      have hx := hout x
      simp only [List.mem_append] at hx ⊢
      rw [or_assoc, hx, h.perm.mem_iff, or_assoc]
  | comm rs qs =>
    rcases hinside.of_append with ⟨as, hfirst, rfl⟩ | ⟨bs, hsecond, rfl⟩
    · refine ⟨_, inner, _, hfirst.append_right qs, .refl inner, fun x => ?_⟩
      simp only [List.mem_append]
      rw [← or_assoc, or_comm, ← or_assoc]
    · refine ⟨_, inner, _, hsecond.append_left rs, .refl inner, fun x => ?_⟩
      simp only [List.mem_append]
      rw [or_assoc, or_comm, or_assoc]
  | trans _ _ ih ih' =>
    obtain ⟨before', inner', after', hinside', hinner, hout⟩ := ih hinside
    obtain ⟨before'', inner'', after'', hinside'', hinner', hout'⟩ := ih' hinside'
    exact ⟨before'', inner'', after'', hinside'', .trans hinner hinner',
      fun x => (hout x).trans (hout' x)⟩

theorem inScope (h : Rearranged rs rs') (hscope : InScope rs) : InScope rs' := by
  intro before inner after hinside v hv hdeclares x hx
  obtain ⟨before', inner', after', hinside', hinner, hout⟩ := h.symm.inside hinside
  exact hscope before' inner' after' hinside' v (hinner.visit_mem.mp hv) hdeclares x
    ((hout x).mp hx)

end Rearranged

theorem Rearranged.arrange {late late' rest rest' : List Region} (h : Rearranged late late')
    (h' : Rearranged rest rest') :
    Rearranged (Order.written.arrange late rest) (Order.walked.arrange late' rest') :=
  .trans (.append h h') (.comm late' rest')

section Regions

variable (t : Target)

mutual

theorem Element.rearranged (e : Element) :
    Rearranged (e.regions t .written) (e.regions t .walked) := by
  cases e with
  | mk form place => exact rearranged_formRegions form

theorem rearranged_formRegions (form : FormCode) :
    Rearranged (formRegions t .written form) (formRegions t .walked form) := by
  cases form with
  | block statements => exact .refl _
  | conditional condition whenTrue whenFalse =>
    exact .append (.append (.refl _) (.block (rearranged_codeRegions whenTrue)))
      (rearranged_elseRegions whenFalse)
  | whileLoop condition body => exact .append (.refl _) (.block (rearranged_codeRegions body))
  | doLoop condition body => exact .append (.block (rearranged_codeRegions body)) (.refl _)
  | countedLoop init condition update body =>
    have hbody := rearranged_codeRegions body
    rw [formRegions, formRegions]
    split
    · exact .block (.append (.refl _) hbody)
    · exact .append (.refl _) (.arrange (.refl _) (.block (.append hbody (.refl _))))
  | forEach vars container body => exact .block (.append (.refl _) (rearranged_codeRegions body))
  | guarded body handlers cleanup =>
    exact .append (.append (.block (rearranged_codeRegions body))
      (rearranged_handlersRegions handlers)) (rearranged_branchRegions cleanup)
  | switch selector cases => exact .arrange (.refl _) (.block (rearranged_casesRegions cases))
  | select selector arms fallback =>
    exact .arrange (.refl _) (.block (.append (rearranged_armsRegions arms)
      (rearranged_branchRegions fallback)))

/-- The blocks of a chain are the same as it is written and as it is walked. -/
theorem rearranged_codeRegions (code : List Element) :
    Rearranged (codeRegions t .written code) (codeRegions t .walked code) := by
  cases code with
  | nil => exact .refl _
  | cons e es => exact .append e.rearranged (rearranged_codeRegions es)

theorem rearranged_elseRegions (code : Option (List Element)) :
    Rearranged (elseRegions t .written code) (elseRegions t .walked code) := by
  cases code with
  | none => exact .refl _
  | some code =>
    cases code with
    | nil => exact .refl _
    | cons e code =>
      cases code with
      | nil => exact .block e.rearranged
      | cons f es =>
        have hes := rearranged_codeRegions es
        rw [elseRegions, elseRegions]
        split
        · exact .append f.rearranged hes
        · exact .block (.append e.rearranged (.append f.rearranged hes))

theorem rearranged_handlersRegions (handlers : List (Occurrence × List Element)) :
    Rearranged (handlersRegions t .written handlers) (handlersRegions t .walked handlers) := by
  cases handlers with
  | nil => exact .refl _
  | cons handler handlers =>
    cases handler with
    | mk v body =>
      exact .append (.refl [visit (.bind v)]) (.append (.block (rearranged_codeRegions body))
        (rearranged_handlersRegions handlers))

theorem rearranged_branchRegions (code : Option (List Element)) :
    Rearranged (branchRegions t .written code) (branchRegions t .walked code) := by
  cases code with
  | none => exact .refl _
  | some body => exact .block (rearranged_codeRegions body)

theorem rearranged_casesRegions (cases : List (List (Option Literal) × List Element)) :
    Rearranged (casesRegions t .written cases) (casesRegions t .walked cases) := by
  cases cases with
  | nil => exact .refl _
  | cons case cases =>
    cases case with
    | mk keys body => exact .append (rearranged_codeRegions body) (rearranged_casesRegions cases)

theorem rearranged_armsRegions (arms : List (ExprCode × List Element)) :
    Rearranged (armsRegions t .written arms) (armsRegions t .walked arms) := by
  cases arms with
  | nil => exact .refl _
  | cons arm arms =>
    cases arm with
    | mk guard body =>
      exact .append (.refl _) (.append (.block (rearranged_codeRegions body))
        (rearranged_armsRegions arms))

end

end Regions

section Runs

variable {κ : Type} {b : Body κ} {rs : List Region}

/-- If declarations are made by first visits, the names of local variables are in
scope if and only if no block holds the first use of one that is used after it. -/
theorem Declaring.inScope_iff (h : Declaring b (allVisits rs)) :
    InScope rs ↔ ∀ id x, b.vars.get? id = some x → x.kind = .localVar → Sheltered id rs := by
  constructor
  · rintro hscope _ x hx hlocal before inner after hinside
      ⟨hbefore, us, v, ws, hinner, rfl, hus⟩ w hw hid
    rw [hinside.allVisits_eq, hinner] at h
    have hnone : ∀ y ∈ before ++ us, ¬ y.Concerns v.id := List.forall_mem_append.mpr ⟨hbefore, hus⟩
    obtain ⟨x', hx', hiff⟩ := h (before ++ us) v (ws ++ after) (by simp)
    obtain rfl : x = x' := Option.some.inj (hx.symm.trans hx')
    have hdeclares := hiff.mpr ⟨hlocal, hnone⟩
    obtain ⟨as, bs, rfl⟩ := List.append_of_mem hw
    have hbare : w.declares = false := by
      obtain ⟨_, -, hiff'⟩ := h (before ++ us ++ .use v :: ws ++ as) w bs (by simp)
      rw [← Bool.not_eq_true, hiff']
      rintro ⟨-, hnone'⟩
      exact hnone' (.use v) (by simp) hid.symm
    have hmem : (.use v) ∈ allVisits inner := by rw [hinner]; simp
    rcases Inside.exists_of_mem hmem with hv | ⟨before', found, after', hfound, hv⟩
    · exact hscope before inner _ hinside v hv hdeclares (.use w) (by simp) ⟨hid, hbare⟩
    · exact hscope _ found _ (hinside.trans hfound) v hv hdeclares (.use w) (by simp) ⟨hid, hbare⟩
  · intro hsheltered before inner after hinside v hv hdeclares x hx hbare
    obtain ⟨us, ws, hinner⟩ := List.append_of_mem (Region.mem_allVisits_of_mem hv)
    rw [hinside.allVisits_eq, hinner] at h
    obtain ⟨y, hy, hiff⟩ := h (before ++ us) v (ws ++ after) (by simp)
    obtain ⟨hlocal, hnone⟩ := hiff.mp hdeclares
    obtain ⟨hbefore, hus⟩ := List.forall_mem_append.mp hnone
    rcases List.mem_append.mp hx with hx | hx
    · exact hbefore x hx hbare.concerns
    · cases x with
      | use w =>
        exact hsheltered v.id y hy hlocal before inner after hinside
          ⟨hbefore, us, v, ws, hinner, rfl, hus⟩ w hx hbare.1
      | bind w => exact hbare
      | enter id => exact hbare

/-- The text of a chain that is unfolded in a fresh scope names the variables that
were visited. Every name of a variable that an expression declares stands in the
innermost block around the declaration, if and only if no local variable is first
used in a block and used again after it. -/
theorem in_scope_iff (s : Style) (view : κ → ClassText) (b : Body κ)
    (head : Option ConstructionId) (sameLine : Bool) {events : List Event} {code : Code}
    {sc' : Scope} (h : ((s.context view b).unfold head).run.run { events } = (.ok code, sc')) :
    leavesOf s (Code.parts s sameLine code) = (Code.doc s sameLine code).leaves ∧
      (visitsOf (Code.parts s sameLine code)).Perm (variableVisits sc'.history) ∧
      (InScope (readBlocks (Code.parts s sameLine code)) ↔
        ∀ id x, b.vars.get? id = some x → x.kind = .localVar →
          Sheltered id (codeRegions s.target .walked code)) := by
  obtain ⟨hhistory, hdeclaring⟩ := declaring_of_unfold h
  have hreads := Code.reads_parts s sameLine code
  have hrearranged := rearranged_codeRegions s.target code
  have hwalked : allVisits (codeRegions s.target .walked code) = codeVisits s.target code :=
    visitsIn_walked s.target code
  rw [← hwalked] at hdeclaring
  refine ⟨Code.leavesOf_parts s sameLine code, ?_, ?_⟩
  · rw [hreads.visitsOf_eq, hhistory]
    exact visitsIn_perm s.target code
  · rw [hreads.readBlocks_eq, ← hdeclaring.inScope_iff]
    exact ⟨hrearranged.inScope, hrearranged.symm.inScope⟩

def branching (y : VariableId) : Body Empty where
  vars := ⟨[⟨1, some ⟨"x", "int", .localVar⟩⟩, ⟨1, some ⟨"y", "int", .localVar⟩⟩], []⟩
  constructions := ⟨[
    ⟨1, some { form := .conditional (.const (.name "c")) ⟨2, 1⟩ none, next := some ⟨3, 1⟩ }⟩,
    ⟨1, some { form := .block [.assign (.var ⟨1, 1⟩) (.const (.int 1))] }⟩,
    ⟨1, some { form := .block [.assign (.var y) (.const (.int 2))] }⟩], []⟩
  entry := some ⟨1, 1⟩

theorem in_scope_iff_branching :
    let b := branching ⟨2, 1⟩
    let s : Style := { target := .java }
    ∃ code sc', ((s.context Empty.elim b).unfold b.entry).run.run {} = (.ok code, sc') ∧
      InScope (readBlocks (Code.parts s false code)) := by
  intro b s
  obtain ⟨code, sc', hrun⟩ : ∃ code sc',
      ((s.context Empty.elim b).unfold b.entry).run.run {} = (.ok code, sc') := ⟨_, _, rfl⟩
  refine ⟨code, sc', hrun, ?_⟩
  refine (in_scope_iff s Empty.elim b b.entry false hrun).2.2.mpr ?_
  have hregions : codeRegions .java .walked code =
      [block [visit (.use ⟨⟨1, 1⟩, "x", "int", true⟩)]] ++
        [visit (.use ⟨⟨2, 1⟩, "y", "int", true⟩)] := by
    cases hrun
    rfl
  rintro id x - - before inner after hinside ⟨-, us, v, ws, hinner, rfl, -⟩ w hw
  change Inside (codeRegions .java .walked code) before inner after at hinside
  rw [hregions] at hinside
  rcases hinside.of_append with ⟨as, hfirst, rfl⟩ | ⟨bs, hsecond, -⟩
  · rcases hfirst.of_block with ⟨-, rfl, rfl⟩ | hdeeper
    · obtain rfl : v = ⟨⟨1, 1⟩, "x", "int", true⟩ := by
        have hmem : (.use v : Visit) ∈ allVisits [visit (.use ⟨⟨1, 1⟩, "x", "int", true⟩)] := by
          rw [hinner]
          simp
        simpa [allVisits, Region.visits] using hmem
      obtain rfl : w = ⟨⟨2, 1⟩, "y", "int", true⟩ := by simpa [allVisits, Region.visits] using hw
      decide
    · exact absurd hdeeper Inside.not_visit
  · exact absurd hsecond Inside.not_visit

/-- The branch declares a variable that is used after the conditional. -/
theorem exists_out_of_scope :
    ∃ (s : Style) (b : Body Empty) (code : Code) (sc' : Scope), s.target = .java ∧
      ((s.context Empty.elim b).unfold b.entry).run.run {} = (.ok code, sc') ∧
        ¬ InScope (readBlocks (Code.parts s false code)) := by
  refine ⟨{ target := .java }, branching ⟨1, 1⟩, _, _, rfl, rfl, fun h => ?_⟩
  have hinside := Inside.child [] [visit (.use ⟨⟨1, 1⟩, "x", "int", true⟩)]
    [visit (.use ⟨⟨1, 1⟩, "x", "int", false⟩)]
  exact h _ _ _ hinside _ (List.mem_singleton_self _) rfl _ (List.mem_singleton_self _) ⟨rfl, rfl⟩

end Runs

end Unparse
